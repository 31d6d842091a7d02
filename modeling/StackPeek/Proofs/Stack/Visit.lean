import StackPeek.Proofs.Probe.Course
import StackPeek.Stack.Walk

/-!
# Visits of a walk

`Walker.shown` is the frame that a stack shows for the outcome of resolving its code object. A
`Visit` is one round of a walk: a frame that was copied and what became of its code object,
together with the events in which that happened. `Linked` puts visits in a row in which each
back pointer names the next frame. The rest of the module says what a location that is marked
complete rests on: `obtained_of_complete`.
-/

namespace StackPeek

namespace Walker

/-- What a stack shows of a frame, given what became of its code object. -/
def shown (w : Walker) (depth : Nat) : Except ReadError Location → ResolvedFrame
  | .ok place => ⟨place.function, place.file, place.line, depth, true⟩
  | .error _ => w.placeholder depth

/-- No part of the location was substituted. -/
def wholePlace : Except ReadError Location → Bool
  | .ok place => place.complete
  | .error _ => false

theorem resolveFrame_eq (w : Walker) (frame : FrameHandle) (depth : Nat) :
    w.resolveFrame frame depth =
      (w.resolve frame.code frame.instructionOffset).run.bind fun place =>
        .done (w.shown depth place, wholePlace place) := by
  refine congrArg (Probe.bind _) (funext fun place => ?_)
  cases place <;> rfl

end Walker

structure Visit where
  address : Address
  frame : FrameHandle
  /-- The place in the source, or why the code object could not be read. -/
  place : Except ReadError Location
  reading : List Event
  resolving : List Event

namespace Visit

/-- The events of the round: a look at the flag that lets it go on, and its reads. -/
def events (v : Visit) : List Event := .poll false :: (v.reading ++ v.resolving)

/-- The round is what its events led to. -/
structure Took (w : Walker) (v : Visit) : Prop where
  nonnull : v.address ≠ 0
  read : (w.readFrame v.address).run.Course v.reading (.ok (.ok v.frame))
  resolve : (w.resolve v.frame.code v.frame.instructionOffset).run.Course v.resolving (.ok v.place)

def Unreadable (w : Walker) (v : Visit) : Prop :=
  ∃ e, (w.readCode v.frame.code).run.Course v.resolving (.ok (.error e))

end Visit

/-- Visits in a row from one address to another along the back pointers. -/
inductive Linked : Address → List Visit → Address → Prop where
  | nil (a : Address) : Linked a [] a
  | cons {v : Visit} {vs : List Visit} {z : Address} :
      Linked v.frame.back vs z → Linked v.address (v :: vs) z

namespace Walker
variable {w : Walker}

/-- The line of a position comes from the first line alone or from a line table that was read. -/
def LineObtained (w : Walker) (code : CodeHandle) (offset : Int64) (es : List Event)
    (line : Int32) : Prop :=
  (offset ≤ 0 ∧ es = [] ∧ line = code.firstLine) ∨
    ∃ data es₁ es₂, es = es₁ ++ es₂ ∧
      (w.decodeBytes code.lineTable LineTable.maxSize).run.Course es₁ (.ok (.ok data)) ∧
      line = ((⟨w.layout.lineTable, code.firstLine, data⟩ : LineTable).lookup offset).1

/-- Code object, function, file and line were all read, each in its part of the events. -/
def Obtained (w : Walker) (address : Address) (offset : Int64) (es : List Event)
    (place : Location) : Prop :=
  ∃ code es₁ es₂ es₃ es₄, es = es₁ ++ (es₂ ++ (es₃ ++ es₄)) ∧
    (w.readCode address).run.Course es₁ (.ok (.ok code)) ∧
    (w.decodeText code.name).run.Course es₂ (.ok (.ok place.function)) ∧
    (w.decodeText code.filename).run.Course es₃ (.ok (.ok place.file)) ∧
    w.LineObtained code offset es₄ place.line

theorem course_resolveName {a : Address} {es : List Event} {text : Text} {whole : Bool}
    (h : (w.resolveName a).Course es (.ok (text, whole))) :
    ((w.decodeText a).run.Course es (.ok (.ok text)) ∧ whole = true) ∨
      (text = w.options.unresolvedName ∧ whole = false) := by
  unfold resolveName at h
  obtain ⟨r, es₁, es₂, rfl, h₁, h₂⟩ := h.of_bind
  cases r with
  | error e =>
    obtain ⟨-, h₂⟩ := h₂.of_done
    cases h₂
    exact .inr ⟨rfl, rfl⟩
  | ok t =>
    obtain ⟨rfl, h₂⟩ := h₂.of_done
    cases h₂
    exact .inl ⟨by rwa [List.append_nil], rfl⟩

theorem course_lineAt {t : LineTable} {offset : Int64} {es : List Event} {line : Int32}
    (h : (t.lineAt offset).Course es (.ok line)) : line = (t.lookup offset).1 := by
  unfold LineTable.lineAt at h
  split at h
  · rename_i l hl
    obtain ⟨-, rfl⟩ := h.of_done
    rw [hl]
  · rename_i l damage hl
    obtain rfl := Probe.Course.of_reported h
    rw [hl]

theorem course_resolveLine {code : CodeHandle} {offset : Int64} {es : List Event} {line : Int32}
    (h : (w.resolveLine code offset).Course es (.ok (line, true))) :
    w.LineObtained code offset es line := by
  unfold resolveLine at h
  split at h
  · rename_i ho
    obtain ⟨rfl, h⟩ := h.of_done
    cases h
    exact .inl ⟨ho, rfl, rfl⟩
  · obtain ⟨r, es₁, es₂, rfl, h₁, h₂⟩ := h.of_bind
    cases r with
    | error e =>
      cases Probe.Course.of_reported h₂
    | ok data =>
      obtain ⟨l, es₃, es₄, rfl, h₃, h₄⟩ := h₂.of_bind
      obtain ⟨-, h₄⟩ := h₄.of_done
      cases h₄
      exact .inr ⟨data, es₁, es₃ ++ es₄, rfl, h₁, course_lineAt h₃⟩

theorem course_locate {code : CodeHandle} {offset : Int64} {es : List Event} {place : Location}
    (h : (w.locate code offset).Course es (.ok place)) (hc : place.complete = true) :
    ∃ es₂ es₃ es₄, es = es₂ ++ (es₃ ++ es₄) ∧
      (w.decodeText code.name).run.Course es₂ (.ok (.ok place.function)) ∧
      (w.decodeText code.filename).run.Course es₃ (.ok (.ok place.file)) ∧
      w.LineObtained code offset es₄ place.line := by
  unfold locate at h
  obtain ⟨⟨function, named⟩, es₂, es', rfl, h₂, h⟩ := h.of_bind
  obtain ⟨⟨file, filed⟩, es₃, es', rfl, h₃, h⟩ := h.of_bind
  obtain ⟨⟨line, lined⟩, es₄, es', rfl, h₄, h⟩ := h.of_bind
  obtain ⟨rfl, rfl⟩ := h.of_done
  simp only [Bool.and_eq_true] at hc
  obtain ⟨⟨rfl, rfl⟩, rfl⟩ := hc
  rcases course_resolveName h₂ with ⟨h₂, -⟩ | ⟨-, h₂⟩
  · rcases course_resolveName h₃ with ⟨h₃, -⟩ | ⟨-, h₃⟩
    · exact ⟨es₂, es₃, es₄, by rw [List.append_nil], h₂, h₃, course_resolveLine h₄⟩
    · cases h₃
  · cases h₂

/-- Resolving fails with the error of reading the code object, and otherwise has read it. -/
theorem course_resolve {a : Address} {offset : Int64} {es : List Event}
    {r : Except ReadError Location} (h : (w.resolve a offset).run.Course es (.ok r)) :
    (∃ e, (w.readCode a).run.Course es (.ok (.error e)) ∧ r = .error e) ∨
      ∃ code place es₁ es₂, es = es₁ ++ es₂ ∧ r = .ok place ∧
        (w.readCode a).run.Course es₁ (.ok (.ok code)) ∧
        (w.locate code offset).Course es₂ (.ok place) := by
  unfold resolve at h
  rcases Attempt.course_bind h with h | ⟨code, es₁, es₂, rfl, h₁, h₂⟩
  · exact .inl h
  · rw [Attempt.run_lift] at h₂
    obtain ⟨place, es₃, es₄, rfl, h₃, h₄⟩ := h₂.of_bind
    obtain ⟨rfl, rfl⟩ := h₄.of_done
    exact .inr ⟨code, place, es₁, es₃, by rw [List.append_nil], rfl, h₁, h₃⟩

end Walker

namespace Visit
variable {w : Walker} {v : Visit}

theorem obtained_of_whole (ht : v.Took w) (hw : Walker.wholePlace v.place = true) :
    ∃ place, v.place = .ok place ∧
      w.Obtained v.frame.code v.frame.instructionOffset v.resolving place := by
  rcases Walker.course_resolve ht.resolve with ⟨e, -, he⟩ | ⟨code, place, es₁, es₂, hes, hp, h₁, h₂⟩
  · rw [he] at hw
    cases hw
  · rw [hp] at hw
    obtain ⟨es₂, es₃, es₄, rfl, hn, hf, hl⟩ := Walker.course_locate h₂ hw
    exact ⟨place, hp, code, es₁, es₂, es₃, es₄, hes, h₁, hn, hf, hl⟩

/-- The placeholder stands for exactly the frames whose code object could not be read. -/
theorem resolved_eq_false_iff (ht : v.Took w) (depth : Nat) :
    (w.shown depth v.place).resolved = false ↔ v.Unreadable w := by
  rcases Walker.course_resolve ht.resolve with ⟨e, h, he⟩ | ⟨code, place, es₁, es₂, hes, hp, h₁, h₂⟩
  · rw [he]
    exact ⟨fun _ => ⟨e, h⟩, fun _ => rfl⟩
  · rw [hp]
    constructor
    · intro h
      cases h
    · rintro ⟨e, h⟩
      -- The reads of the code object decide whether it can be read.
      have hr := (h₁.unique_of_prefix h ⟨es₂, hes.symm⟩).2
      cases hr

theorem shown_of_unresolved {w : Walker} {depth : Nat} {place : Except ReadError Location}
    (h : (w.shown depth place).resolved = false) : w.shown depth place = w.placeholder depth := by
  cases place with
  | ok place => cases h
  | error e => rfl

end Visit
end StackPeek
