import StackPeek.Layout.Builtin
import StackPeek.Proofs.Probe.Still
import StackPeek.Proofs.Thread.Read

/-!
# Walks over threads and interpreters

Both walks are rows of rounds (`course_threadsFrom`, `course_interpretersFrom`), in which every
pointer is what the target answered when the walk asked for it. So whatever the target answers,
whoever visits and whenever the flag is set, they keep the promises of `ListWalk.Faithful`
(`list_walks_faithful`).
-/

namespace StackPeek

namespace Walker
variable {w : Walker} {σ : Type} {visit : σ → ThreadHandle → ForInStep σ}
  {seek : σ → Address → ForInStep σ}

/-- A walk over threads ends at once, or reads one thread and goes on from it. -/
theorem threadsFrom_cases {interpreter address : Address} {room : Nat} {visited : List Address}
    {r r' : ListWalk σ} {es : List Event}
    (h : (w.threadsFrom interpreter visit room address visited r).Course es (.ok r')) :
    ListWalk.Rounds visit ThreadHandle.frameUnavailable room (some address) visited r []
      (some address) r' ∨
    ∃ (i : Item ThreadHandle) (room' : Nat) (rest : List Event), i.ThreadRead w ∧
      i.address = address ∧ i.address ≠ 0 ∧ i.address ∉ visited ∧ room = room' + 1 ∧
      es = i.events ++ rest ∧
      ((∃ s, visit r.state i.element = .done s ∧
        r' = { r.report i.address i.element.frameUnavailable s with stopped := true }) ∨
      ∃ s, visit r.state i.element = .yield s ∧
        (w.threadsFrom interpreter visit room' i.element.next (i.address :: visited)
          (r.report i.address i.element.frameUnavailable s)).Course rest (.ok r')) := by
  unfold threadsFrom at h
  rcases ListWalk.guarded_cases h (fun _ => Probe.Course.of_reported)
    (fun _ => Probe.Course.of_reported) with h | ⟨room, es₀, ha, hm, rfl, rfl, h₀⟩
  · exact .inl h
  obtain ⟨x, es₁, es₂, rfl, h₁, h₂⟩ := h₀.of_bind
  cases x with
  | error e =>
    obtain rfl := Probe.Course.of_reported h₂
    exact .inl .fail
  | ok thread =>
    refine .inr ⟨⟨thread, address, some thread.next, .poll false :: es₁⟩, room, es₂,
      ⟨(course_readThread h₁).1, rfl, es₁, rfl, h₁⟩, rfl, ha, hm, rfl, rfl, ?_⟩
    simp only at h₂
    split at h₂
    · rename_i s hs
      obtain ⟨-, rfl⟩ := h₂.of_done
      exact .inl ⟨s, hs, rfl⟩
    · rename_i s hs
      exact .inr ⟨s, hs, h₂⟩

theorem course_threadsFrom {interpreter address : Address} {room : Nat} {visited : List Address}
    {r r' : ListWalk σ} {es : List Event}
    (h : (w.threadsFrom interpreter visit room address visited r).Course es (.ok r')) :
    ∃ items last rest, es = items.flatMap Item.events ++ rest ∧
      (∀ i ∈ items, i.ThreadRead w) ∧
      ListWalk.Rounds visit ThreadHandle.frameUnavailable room (some address) visited r items
        last r' := by
  induction room generalizing address visited r es with
  | zero =>
    rcases threadsFrom_cases h with h | ⟨i, room', rest, -, -, -, -, hr, -⟩
    · exact ⟨[], _, es, rfl, fun i hi => absurd hi List.not_mem_nil, h⟩
    · cases hr
  | succ room ih =>
    rcases threadsFrom_cases h with h | ⟨i, room', rest, ht, rfl, ha, hv, hr, rfl, h⟩
    · exact ⟨[], _, es, rfl, fun i hi => absurd hi List.not_mem_nil, h⟩
    cases hr
    rcases h with ⟨s, hs, rfl⟩ | ⟨s, hs, h⟩
    · refine ⟨[i], _, rest, ?_, ?_, .stop ha hv hs⟩
      · rw [List.flatMap_singleton]
      · intro j hj
        rw [List.mem_singleton.mp hj]
        exact ht
    · obtain ⟨items, last, rest', rfl, hi, hrest⟩ := ih h
      refine ⟨i :: items, last, rest', ?_, ?_, .step ha hv hs ?_⟩
      · rw [List.flatMap_cons, List.append_assoc]
      · intro j hj
        rcases List.mem_cons.mp hj with rfl | hj
        · exact ht
        · exact hi j hj
      · rw [ht.next]
        exact hrest

/-- A walk over interpreters ends at once, or hands one over, and then stops, or cannot read
the pointer to the next one, or goes on from it. -/
theorem interpretersFrom_cases {address : Address} {room : Nat} {visited : List Address}
    {r r' : ListWalk σ} {es : List Event}
    (h : (w.interpretersFrom seek room address visited r).Course es (.ok r')) :
    ListWalk.Rounds seek (fun _ => false) room (some address) visited r [] (some address) r' ∨
    ∃ (i : Item Address) (room' : Nat) (rest : List Event), i.InterpreterRead w ∧
      i.address = address ∧ i.address ≠ 0 ∧ i.address ∉ visited ∧ room = room' + 1 ∧
      es = i.events ++ rest ∧
      ((∃ s, seek r.state i.element = .done s ∧
        r' = { r.report i.address false s with stopped := true }) ∨
      ∃ s, seek r.state i.element = .yield s ∧
        ((∃ e, i.next = none ∧
          r' = { r.report i.address false s with incomplete := true, error := some e }) ∨
        ∃ next, i.next = some next ∧
          (w.interpretersFrom seek room' next (i.address :: visited)
            (r.report i.address false s)).Course rest (.ok r'))) := by
  unfold interpretersFrom at h
  rcases ListWalk.guarded_cases h (fun _ h => h.of_done.2.symm)
    (fun _ h => h.of_done.2.symm) with h | ⟨room, es₀, ha, hm, rfl, rfl, h₀⟩
  · exact .inl h
  -- Nothing about an interpreter is in doubt once it is handed over.
  have hsure : ∀ s, r.report address false s =
      { r with final := address, count := r.count + 1, state := s } := by
    intro s
    simp only [ListWalk.report, Bool.or_false]
  right
  simp only at h₀
  split at h₀
  · rename_i s hs
    obtain ⟨rfl, rfl⟩ := h₀.of_done
    refine ⟨⟨address, address, none, [.poll false]⟩, room, [], Item.interpreterRead_last _ _, rfl,
      ha, hm, rfl, rfl, .inl ⟨s, hs, ?_⟩⟩
    rw [hsure]
  · rename_i s hs
    obtain ⟨x, es₁, es₂, rfl, h₁, h₂⟩ := h₀.of_bind
    cases x with
    | error e =>
      obtain rfl := Probe.Course.of_reported h₂
      refine ⟨⟨address, address, none, .poll false :: es₁⟩, room, es₂,
        Item.interpreterRead_last _ _, rfl, ha, hm, rfl, rfl, .inr ⟨s, hs, .inl ⟨e, rfl, ?_⟩⟩⟩
      rw [hsure]
    | ok next =>
      refine ⟨⟨address, address, some next, .poll false :: es₁⟩, room, es₂, ⟨rfl, ?_⟩, rfl, ha,
        hm, rfl, rfl, .inr ⟨s, hs, .inr ⟨next, rfl, ?_⟩⟩⟩
      · rintro a ⟨⟩
        exact ⟨es₁, rfl, course_demandRead h₁⟩
      · rw [hsure]
        exact h₂

theorem course_interpretersFrom {address : Address} {room : Nat} {visited : List Address}
    {r r' : ListWalk σ} {es : List Event}
    (h : (w.interpretersFrom seek room address visited r).Course es (.ok r')) :
    ∃ items last rest, es = items.flatMap Item.events ++ rest ∧
      (∀ i ∈ items, i.InterpreterRead w) ∧
      ListWalk.Rounds seek (fun _ => false) room (some address) visited r items last r' := by
  induction room generalizing address visited r es with
  | zero =>
    rcases interpretersFrom_cases h with h | ⟨i, room', rest, -, -, -, -, hr, -⟩
    · exact ⟨[], _, es, rfl, fun i hi => absurd hi List.not_mem_nil, h⟩
    · cases hr
  | succ room ih =>
    rcases interpretersFrom_cases h with h | ⟨i, room', rest, ht, rfl, ha, hv, hr, rfl, h⟩
    · exact ⟨[], _, es, rfl, fun i hi => absurd hi List.not_mem_nil, h⟩
    cases hr
    have hone : ∀ j ∈ [i], j.InterpreterRead w := by
      intro j hj
      rw [List.mem_singleton.mp hj]
      exact ht
    rcases h with ⟨s, hs, rfl⟩ | ⟨s, hs, ⟨e, hn, rfl⟩ | ⟨next, hn, h⟩⟩
    · exact ⟨[i], _, rest, by rw [List.flatMap_singleton], hone, .stop ha hv hs⟩
    · refine ⟨[i], none, rest, by rw [List.flatMap_singleton], hone, .step ha hv hs ?_⟩
      rw [hn]
      exact .fail
    · obtain ⟨items, last, rest', rfl, hi, hrest⟩ := ih h
      refine ⟨i :: items, last, rest', ?_, ?_, .step ha hv hs ?_⟩
      · rw [List.flatMap_cons, List.append_assoc]
      · intro j hj
        rcases List.mem_cons.mp hj with rfl | hj
        · exact ht
        · exact hi j hj
      · rw [hn]
        exact hrest

end Walker

/-- A visitor that keeps what it is handed, the latest first. -/
def collect {ε : Type} (seen : List ε) (e : ε) : ForInStep (List ε) := .yield (e :: seen)

theorem handed_collect {ε : Type} {seen es : List ε} {o : ForInStep (List ε)}
    (h : Handed collect seen es o) : o = .yield (es.reverse ++ seen) := by
  induction h with
  | nil => rfl
  | stop h => cases h
  | cons h _ ih =>
    cases h
    rw [ih, List.reverse_cons, List.append_assoc]
    rfl

theorem ListWalk.Rounds.collected {ε : Type} {doubtful : ε → Bool} {room : Nat}
    {p z : Option Address} {items : List (Item ε)} {r : ListWalk (List ε)}
    (h : Rounds collect doubtful room p [] (.start []) items z r) :
    r.stopped = false ∧ r.state.reverse = items.map Item.element := by
  have hv := handed_collect (h.handed (ListWalk.underway_start []))
  unfold ListWalk.verdict at hv
  cases hs : r.stopped with
  | true =>
    rw [hs] at hv
    cases hv
  | false =>
    rw [hs] at hv
    injection hv with hv
    refine ⟨rfl, ?_⟩
    rw [hv]
    simp [ListWalk.start]

namespace Walker
variable {w : Walker} {σ : Type}

/-- In these events the pointer to the first thread of an interpreter was asked for and the
threads behind it were read, one after the other. -/
def ThreadsRead (w : Walker) (interpreter : Address) (head : Option Address)
    (items : List (Item ThreadHandle)) (es : List Event) : Prop :=
  ∃ (found : Except ReadError Address) (es₀ rest : List Event),
    es = es₀ ++ (items.flatMap Item.events ++ rest) ∧ head = found.toOption ∧
    (w.readUnsigned interpreter .interpreterThreads).run.Course es₀ (.ok found) ∧
    ∀ i ∈ items, i.ThreadRead w

/-- In these events the pointers from one interpreter to the next were read. -/
def InterpretersRead (w : Walker) (items : List (Item Address)) (es : List Event) : Prop :=
  ∃ rest, es = items.flatMap Item.events ++ rest ∧ ∀ i ∈ items, i.InterpreterRead w

theorem ThreadsRead.each {interpreter : Address} {head : Option Address}
    {items : List (Item ThreadHandle)} {es : List Event}
    (h : w.ThreadsRead interpreter head items es) : ∀ i ∈ items, i.ThreadRead w := by
  obtain ⟨found, es₀, rest, -, -, -, hi⟩ := h
  exact hi

theorem InterpretersRead.each {items : List (Item Address)} {es : List Event}
    (h : w.InterpretersRead items es) : ∀ i ∈ items, i.InterpreterRead w := by
  obtain ⟨rest, -, hi⟩ := h
  exact hi

theorem course_iterateThreads {interpreter : Address} {visit : σ → ThreadHandle → ForInStep σ}
    {state : σ} {es : List Event} {r : ListWalk σ}
    (h : (w.iterateThreads interpreter visit state).Course es (.ok r)) :
    ∃ head items last, w.ThreadsRead interpreter head items es ∧
      ListWalk.Rounds visit ThreadHandle.frameUnavailable w.options.maxThreads.toNat head []
        (.start state) items last r := by
  unfold iterateThreads at h
  obtain ⟨found, es₀, es₁, rfl, h₀, h₁⟩ := h.of_bind
  have h₀ := course_demandRead h₀
  cases found with
  | error e =>
    obtain rfl := Probe.Course.of_reported h₁
    exact ⟨none, [], none, ⟨.error e, es₀, es₁, rfl, rfl, h₀,
      fun i hi => absurd hi List.not_mem_nil⟩, .fail⟩
  | ok head =>
    obtain ⟨items, last, rest, rfl, hi, hr⟩ := course_threadsFrom h₁
    exact ⟨some head, items, last, ⟨.ok head, es₀, rest, rfl, rfl, h₀, hi⟩, hr⟩

theorem course_iterateInterpreters {head : Address} {visit : σ → Address → ForInStep σ}
    {state : σ} {es : List Event} {r : ListWalk σ}
    (h : (w.iterateInterpreters head visit state).Course es (.ok r)) :
    ∃ items last, w.InterpretersRead items es ∧
      ListWalk.Rounds visit (fun _ => false) w.options.maxThreads.toNat (some head) []
        (.start state) items last r := by
  obtain ⟨items, last, rest, hes, hi, hr⟩ := course_interpretersFrom h
  exact ⟨items, last, ⟨rest, hes, hi⟩, hr⟩

theorem course_enumerateThreads {interpreter : Address} {es : List Event}
    {found : ThreadEnumeration} (h : (w.enumerateThreads interpreter).Course es (.ok found)) :
    ∃ head items last r, w.ThreadsRead interpreter head items es ∧
      (w.iterateThreads interpreter collect []).Course es (.ok r) ∧
      ListWalk.Rounds collect ThreadHandle.frameUnavailable w.options.maxThreads.toNat head []
        (.start []) items last r ∧
      r.stopped = false ∧
      found = ⟨items.map Item.element, r.incomplete, r.cycleDetected, r.error⟩ := by
  obtain ⟨r, es₁, es₂, rfl, h₁, h₂⟩ := h.of_bind
  obtain ⟨rfl, rfl⟩ := h₂.of_done
  obtain ⟨head, items, last, hread, hr⟩ := course_iterateThreads h₁
  obtain ⟨hs, hl⟩ := hr.collected
  rw [List.append_nil]
  exact ⟨head, items, last, r, hread, h₁, hr, hs, by rw [hl]⟩

/-- Whatever the target answers, whoever visits and whenever the flag is set, the walks over
threads and over interpreters keep their promises, and an enumeration says what the walk says
that hands it the threads. -/
theorem list_walks_faithful (w : Walker) :
    (∀ {σ : Type} {visit : σ → ThreadHandle → ForInStep σ} {state : σ} {interpreter : Address}
      {es : List Event} {r : ListWalk σ},
      (w.iterateThreads interpreter visit state).Course es (.ok r) →
      ∃ head items last, w.ThreadsRead interpreter head items es ∧
        r.Faithful w.options.maxThreads.toNat visit state head items last) ∧
    (∀ {σ : Type} {visit : σ → Address → ForInStep σ} {state : σ} {head : Address}
      {es : List Event} {r : ListWalk σ},
      (w.iterateInterpreters head visit state).Course es (.ok r) →
      ∃ items last, w.InterpretersRead items es ∧
        r.Faithful w.options.maxThreads.toNat visit state (some head) items last) ∧
    ∀ {interpreter : Address} {es : List Event} {found : ThreadEnumeration},
      (w.enumerateThreads interpreter).Course es (.ok found) →
      ∃ head items last r, w.ThreadsRead interpreter head items es ∧
        (w.iterateThreads interpreter collect []).Course es (.ok r) ∧
        r.Faithful w.options.maxThreads.toNat collect [] head items last ∧
        r.stopped = false ∧
        found = ⟨items.map Item.element, r.incomplete, r.cycleDetected, r.error⟩ := by
  refine ⟨?_, ?_, ?_⟩
  · intro σ visit state interpreter es r h
    obtain ⟨head, items, last, hread, hr⟩ := course_iterateThreads h
    exact ⟨head, items, last, hread, hr.faithful⟩
  · intro σ visit state head es r h
    obtain ⟨items, last, hread, hr⟩ := course_iterateInterpreters h
    exact ⟨items, last, hread, hr.faithful⟩
  · intro interpreter es found h
    obtain ⟨head, items, last, r, hread, hit, hr, hs, hf⟩ := course_enumerateThreads h
    exact ⟨head, items, last, r, hread, hit, hr.faithful, hs, hf⟩

/-- An interpreter at 0x500 whose two threads are linked in a ring, and another one after it. -/
def loopMemory : StillMemory := fun address _ =>
  if address = 0x500 then .copied (Bytes.ofNat 8 0x600)
  else if address = 0x508 then .copied (Bytes.ofNat 8 0x1000)
  else if address = 0x1000 then
    .copied (Bytes.ofNat 8 0x2000 ++ Bytes.ofNat 8 7 ++ Bytes.ofNat 8 0)
  else if address = 0x2000 then
    .copied (Bytes.ofNat 8 0x1000 ++ Bytes.ofNat 8 8 ++ Bytes.ofNat 8 0)
  else .failed Errno.fault

def loopWalker : Walker :=
  ⟨(Layout.builtin .v33).set .threadId (.unsignedAt 8 8), { Options.standard with maxThreads := 3 }⟩

def loopThreads : List ThreadHandle := [⟨0x1000, 0x2000, 0, 7, false⟩, ⟨0x2000, 0x1000, 0, 8, false⟩]

def loopWalk : ListWalk (List ThreadHandle) :=
  ⟨loopThreads.reverse, 2, false, true, false, none, 0x1000⟩

def second (n : Nat) (_ : Address) : ForInStep Nat := if n = 0 then .yield 1 else .done 2

theorem list_walks_faithful_loop :
    (∃ es head items last,
      (loopWalker.iterateThreads 0x500 collect []).Course es (.ok loopWalk) ∧
      loopWalker.ThreadsRead 0x500 head items es ∧
      loopWalk.Faithful 3 collect [] head items last) ∧
    (∃ es items last,
      (loopWalker.iterateInterpreters 0x500 second 0).Course es
        (.ok ⟨2, 2, false, false, true, none, 0x600⟩) ∧
      (⟨2, 2, false, false, true, none, 0x600⟩ : ListWalk Nat).Faithful 3 second 0 (some 0x500)
        items last) ∧
    ∃ es r, (loopWalker.enumerateThreads 0x500).Course es (.ok ⟨loopThreads, false, true, none⟩) ∧
      (loopWalker.iterateThreads 0x500 collect []).Course es (.ok r) ∧ r.cycleDetected = true := by
  obtain ⟨hthreads, hinterpreters, henumeration⟩ := list_walks_faithful loopWalker
  refine ⟨?_, ?_, ?_⟩
  · obtain ⟨es, h⟩ := Probe.course_of_run loopMemory.target
      (loopWalker.iterateThreads 0x500 collect []) ()
    have hrun : ((loopWalker.iterateThreads 0x500 collect []).run loopMemory.target ()).1 =
        .ok loopWalk := rfl
    rw [hrun] at h
    obtain ⟨head, items, last, hread, hf⟩ := hthreads h
    exact ⟨es, head, items, last, h, hread, hf⟩
  · obtain ⟨es, h⟩ := Probe.course_of_run loopMemory.target
      (loopWalker.iterateInterpreters 0x500 second 0) ()
    have hrun : ((loopWalker.iterateInterpreters 0x500 second 0).run loopMemory.target ()).1 =
        .ok ⟨2, 2, false, false, true, none, 0x600⟩ := rfl
    rw [hrun] at h
    obtain ⟨items, last, -, hf⟩ := hinterpreters h
    exact ⟨es, items, last, h, hf⟩
  · obtain ⟨es, h⟩ := Probe.course_of_run loopMemory.target (loopWalker.enumerateThreads 0x500) ()
    have hrun : ((loopWalker.enumerateThreads 0x500).run loopMemory.target ()).1 =
        .ok ⟨loopThreads, false, true, none⟩ := rfl
    rw [hrun] at h
    obtain ⟨head, items, last, r, -, hr, -, -, hf⟩ := henumeration h
    injection hf with ht hi hc he
    exact ⟨es, r, h, hr, hc.symm⟩

end Walker
end StackPeek
