import StackPeek.Proofs.Thread.Rounds

/-!
# Elements that were read

What the courses of `Walker.readThread` say about the thread that it returns, and what it means
for an item of a walk that its pointer to the next one was read from the target.
-/

namespace StackPeek

namespace Walker
variable {w : Walker} {σ α : Type}

theorem course_demand {field : Field} {x : Except ReadError α} {es : List Event} {u : Unit}
    (h : (w.demand field x).Course es (.ok u)) : es = [] := by
  unfold demand at h
  split at h
  · cases h
  · exact h.of_done.1

theorem course_demandRead {field : Field} {x : Attempt α} {es : List Event}
    {r : Except ReadError α} (h : (w.demandRead field x).run.Course es (.ok r)) :
    x.run.Course es (.ok r) := by
  obtain ⟨y, es₁, es₂, rfl, h₁, h₂⟩ := h.of_bind
  obtain ⟨u, es₃, es₄, rfl, h₃, h₄⟩ := h₂.of_bind
  obtain rfl := course_demand h₃
  obtain ⟨rfl, rfl⟩ := h₄.of_done
  rwa [List.append_nil, List.append_nil]

theorem course_demand_bind {β : Type} {field : Field} {x : Except ReadError α} {es : List Event}
    {f : Unit → Attempt β} {r : Except ReadError β}
    (h : ((liftM (w.demand field x) : Attempt Unit) >>= f).run.Course es (.ok r)) :
    (f ()).run.Course es (.ok r) := by
  obtain ⟨u, es₁, es₂, rfl, h₁, h₂⟩ := Attempt.course_lift h
  obtain rfl := course_demand h₁
  exact h₂

/-- How the frame of a thread was found: the thread state names it, or names no record behind
which it could be, or names one from which it was read. -/
def LinkRead (w : Walker) (s : Snapshot) (frame : Address) (es : List Event) : Prop :=
  match w.layout.frameLink with
  | .direct => s.pointer .threadFrame = .ok frame ∧ es = []
  | .viaCFrame => ∃ cframe, s.pointer .threadCFrame = .ok cframe ∧
    if cframe = 0 then frame = 0 ∧ es = []
    else (w.readUnsigned cframe .cframeCurrent).run.Course es (.ok (.ok frame))

theorem course_threadFrame {thread frame : Address} {s : Snapshot} {es : List Event}
    (h : (w.threadFrame thread s).run.Course es (.ok (.ok (frame, false)))) :
    w.LinkRead s frame es := by
  unfold threadFrame at h
  unfold LinkRead
  cases hl : w.layout.frameLink with
  | direct =>
    simp only [hl] at h ⊢
    rcases Attempt.course_ofExcept (course_demand_bind h) with ⟨e, -, he⟩ | ⟨a, ha, h⟩
    · cases he
    · obtain ⟨rfl, he⟩ := h.of_done
      cases he
      exact ⟨ha, rfl⟩
  | viaCFrame =>
    simp only [hl] at h ⊢
    rcases Attempt.course_ofExcept (course_demand_bind h) with ⟨e, -, he⟩ | ⟨cframe, hc, h⟩
    · cases he
    refine ⟨cframe, hc, ?_⟩
    split at h
    · rename_i h0
      obtain ⟨rfl, he⟩ := h.of_done
      cases he
      rw [if_pos h0]
      exact ⟨rfl, rfl⟩
    · rename_i h0
      rw [if_neg h0]
      unfold cframeFrame at h
      rw [Attempt.run_lift] at h
      obtain ⟨p, es₁, es₂, rfl, h₁, h₂⟩ := h.of_bind
      obtain ⟨rfl, he⟩ := h₂.of_done
      cases he
      obtain ⟨x, es₃, es₄, rfl, h₃, h₄⟩ := h₁.of_bind
      cases x with
      | error e =>
        cases Probe.Course.of_reported h₄
      | ok a =>
        obtain ⟨rfl, he⟩ := h₄.of_done
        cases he
        rw [List.append_nil, List.append_nil]
        exact course_demandRead h₃

/-- A thread that was read: its members come from one copy of its state, and if it is not in
doubt, its link to the frame was read behind that. -/
theorem course_readThread {a : Address} {thread : ThreadHandle} {es : List Event}
    (h : (w.readThread a).run.Course es (.ok (.ok thread))) :
    thread.address = a ∧
      ∃ s es₁ es₂, es = es₁ ++ es₂ ∧
        (w.readStruct a .threadState).run.Course es₁ (.ok (.ok s)) ∧
        s.pointer .threadNext = .ok thread.next ∧ s.unsigned .threadId = .ok thread.threadId ∧
        (thread.frameUnavailable = false → w.LinkRead s thread.frame es₂) := by
  unfold readThread at h
  rcases Attempt.course_bind h with ⟨e, -, he⟩ | ⟨s, es₁, es₂, rfl, hs, h⟩
  · cases he
  unfold threadHandle at h
  have h := course_demand_bind (course_demand_bind h)
  rcases Attempt.course_ofExcept h with ⟨e, -, he⟩ | ⟨next, hn, h⟩
  · cases he
  rcases Attempt.course_ofExcept h with ⟨e, -, he⟩ | ⟨threadId, hi, h⟩
  · cases he
  rcases Attempt.course_bind h with ⟨e, -, he⟩ | ⟨⟨frame, unavailable⟩, es₃, es₄, rfl, hf, h⟩
  · cases he
  obtain ⟨rfl, he⟩ := h.of_done
  cases he
  refine ⟨rfl, s, es₁, es₃, by rw [List.append_nil], course_demandRead hs, hn, hi, ?_⟩
  rintro rfl
  exact course_threadFrame hf

end Walker

namespace Item
variable {w : Walker}

/-- The item is a thread that was read after a look at the flag, and the pointer to the next
one is its own. -/
structure ThreadRead (w : Walker) (i : Item ThreadHandle) : Prop where
  address : i.element.address = i.address
  next : i.next = some i.element.next
  read : ∃ es, i.events = .poll false :: es ∧
    (w.readThread i.address).run.Course es (.ok (.ok i.element))

/-- The pointer to the frames of the thread was read, as far as there is one. -/
def FrameFound (w : Walker) (i : Item ThreadHandle) : Prop :=
  i.element.frameUnavailable = false ∧
    ∃ s es₁ es₂, i.events = .poll false :: (es₁ ++ es₂) ∧
      (w.readStruct i.address .threadState).run.Course es₁ (.ok (.ok s)) ∧
      w.LinkRead s i.element.frame es₂

theorem ThreadRead.frameFound {i : Item ThreadHandle} (h : i.ThreadRead w)
    (hu : i.element.frameUnavailable = false) : i.FrameFound w := by
  obtain ⟨es, he, hr⟩ := h.read
  obtain ⟨-, s, es₁, es₂, rfl, hs, -, -, hl⟩ := Walker.course_readThread hr
  exact ⟨hu, s, es₁, es₂, he, hs, hl hu⟩

/-- The item is an interpreter, and its pointer to the next one was read after a look at the
flag, if it was. -/
structure InterpreterRead (w : Walker) (i : Item Address) : Prop where
  address : i.element = i.address
  read : ∀ a, i.next = some a → ∃ es, i.events = .poll false :: es ∧
    (w.readUnsigned i.address .interpreterNext).run.Course es (.ok (.ok a))

theorem interpreterRead_last (a : Address) (es : List Event) :
    InterpreterRead w ⟨a, a, none, es⟩ := by
  refine ⟨rfl, ?_⟩
  intro b hb
  cases hb

end Item
end StackPeek
