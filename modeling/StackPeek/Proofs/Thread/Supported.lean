import StackPeek.Proofs.Text.Exacting
import StackPeek.Thread.List

/-!
# Threads and interpreters with a layout that has what they need

With a layout that provides what sampling needs, neither the reading of a thread nor a walk over
threads or interpreters ends in a fault, whatever the target answers.
-/

namespace StackPeek
variable {σ : Type}

theorem FieldSpec.described_decode (spec : FieldSpec) (bytes : List UInt8) :
    Described (spec.decode bytes) := by
  unfold decode
  split
  · nofun
  split
  · split <;> nofun
  · nofun

theorem FieldValue.described_toUnsigned (v : FieldValue) : Described v.toUnsigned := by
  unfold toUnsigned
  split
  · nofun
  · split <;> nofun
  · nofun

namespace Walker
variable {w : Walker} (hl : w.layout.Provides)
include hl

theorem plain_valueOf (spec : FieldSpec) (bytes : List UInt8) : (w.valueOf spec bytes).Plain := by
  unfold valueOf
  split
  · exact Attempt.plain_pure _
  apply (Attempt.plain_ofExcept (spec.described_decode bytes)).bind
  intro raw
  split
  · exact Attempt.plain_pure _
  -- A member that points to a string is followed, so all that the decoder needs is needed here.
  · exact (plain_decodeText hl raw).bind fun text => Attempt.plain_pure _
  · exact Attempt.plain_pure _

theorem plain_readField {field : Field} (h : (w.layout.spec? field).isSome) (base : Address) :
    (w.readField base field).Plain := by
  obtain ⟨spec, hs⟩ := Option.isSome_iff_exists.mp h
  unfold readField
  rw [hs]
  apply (Attempt.plain_ofExcept (Address.described_plus? base spec.offset)).bind
  intro address
  split
  · exact Attempt.plain_pure _
  · exact (Memory.plain_fetchAll _ _).bind fun bytes => plain_valueOf hl spec bytes

theorem plain_readUnsigned {field : Field} (h : (w.layout.spec? field).isSome) (base : Address) :
    (w.readUnsigned base field).Plain :=
  (plain_readField hl h base).bind fun v => Attempt.plain_ofExcept v.described_toUnsigned

theorem ensures_cframeFrame (h : w.layout.frameLink = .viaCFrame) (thread cframe : Address) :
    (w.cframeFrame thread cframe).Ensures fun _ => True := by
  have hm : (w.layout.spec? .cframeCurrent).isSome := by
    apply hl.member
    unfold Layout.required
    simp [h]
  unfold cframeFrame
  rw [demandRead_eq (plain_readUnsigned hl hm cframe)]
  apply Probe.Ensures.bind (plain_readUnsigned hl hm cframe)
  intro r _
  cases r with
  | ok frame => exact .done trivial
  | error e => exact (Probe.ensures_report _ _).bind fun _ _ => .done trivial

theorem plain_threadFrame (thread : Address) {s : Snapshot} (hs : s.layout = w.layout) :
    (w.threadFrame thread s).Plain := by
  have hm := hl.member
  unfold Layout.required at hm
  unfold threadFrame
  cases hlink : w.layout.frameLink with
  | direct =>
    have hd : Described (s.pointer .threadFrame) :=
      Snapshot.described_pointer (by rw [hs]; exact hm _ (by simp [hlink]))
    exact plain_demand hd _ ((Attempt.plain_ofExcept hd).bind fun _ => Attempt.plain_pure _)
  | viaCFrame =>
    have hd : Described (s.pointer .threadCFrame) :=
      Snapshot.described_pointer (by rw [hs]; exact hm _ (by simp [hlink]))
    refine plain_demand hd _ ((Attempt.plain_ofExcept hd).bind fun cframe => ?_)
    split
    · exact Attempt.plain_pure _
    · exact Attempt.plain_lift (ensures_cframeFrame hl hlink thread cframe)

theorem plain_readThread (thread : Address) : (w.readThread thread).Plain := by
  apply plain_demandRead hl.thread thread _
  intro s hs
  have hn : Described (s.pointer .threadNext) := (described_copied hl hs _ (by decide)).1
  have hi := (described_copied hl hs .threadId (by decide)).1
  refine plain_demand hn _ (plain_demand hi _ ?_)
  apply (Attempt.plain_ofExcept hn).bind
  intro next
  apply (Attempt.plain_ofExcept hi).bind
  intro threadId
  exact (plain_threadFrame hl thread hs).bind fun frame => Attempt.plain_pure _

theorem ensures_threadsFrom (interpreter : Address) (visit : σ → ThreadHandle → ForInStep σ)
    (room : Nat) (address : Address) (visited : List Address) (r : ListWalk σ) :
    (w.threadsFrom interpreter visit room address visited r).Ensures fun _ => True := by
  induction room generalizing address visited r with
  | zero =>
    unfold threadsFrom
    simp only
    split
    · exact .done trivial
    apply Probe.ensures_cancelled.bind
    intro flag _
    split
    · exact .done trivial
    · exact (Probe.ensures_report _ _).bind fun _ _ => .done trivial
  | succ room ih =>
    unfold threadsFrom
    simp only
    split
    · exact .done trivial
    apply Probe.ensures_cancelled.bind
    intro flag _
    split
    · exact .done trivial
    split
    · exact (Probe.ensures_report _ _).bind fun _ _ => .done trivial
    apply Probe.Ensures.bind (plain_readThread hl address)
    intro x _
    cases x with
    | error e => exact (Probe.ensures_report _ _).bind fun _ _ => .done trivial
    | ok thread =>
      simp only
      split
      · exact .done trivial
      · exact ih _ _ _

theorem ensures_iterateThreads (interpreter : Address) (visit : σ → ThreadHandle → ForInStep σ)
    (state : σ) : (w.iterateThreads interpreter visit state).Ensures fun _ => True := by
  have hr := plain_readUnsigned hl (hl.always (f := .interpreterThreads) (by decide)) interpreter
  unfold iterateThreads
  rw [demandRead_eq hr]
  apply Probe.Ensures.bind hr
  intro x _
  cases x with
  | error e => exact (Probe.ensures_report _ _).bind fun _ _ => .done trivial
  | ok head => exact ensures_threadsFrom hl _ _ _ _ _ _

theorem ensures_enumerateThreads (interpreter : Address) :
    (w.enumerateThreads interpreter).Ensures fun _ => True :=
  (ensures_iterateThreads hl _ _ _).bind fun _ _ => .done trivial

theorem ensures_interpretersFrom (visit : σ → Address → ForInStep σ) (room : Nat)
    (address : Address) (visited : List Address) (r : ListWalk σ) :
    (w.interpretersFrom visit room address visited r).Ensures fun _ => True := by
  induction room generalizing address visited r with
  | zero =>
    unfold interpretersFrom
    simp only
    split
    · exact .done trivial
    apply Probe.ensures_cancelled.bind
    intro flag _
    split <;> exact .done trivial
  | succ room ih =>
    have hr := plain_readUnsigned hl (hl.always (f := .interpreterNext) (by decide)) address
    unfold interpretersFrom
    simp only
    split
    · exact .done trivial
    apply Probe.ensures_cancelled.bind
    intro flag _
    split
    · exact .done trivial
    split
    · exact .done trivial
    split
    · exact .done trivial
    rw [demandRead_eq hr]
    apply Probe.Ensures.bind hr
    intro x _
    cases x with
    | error e => exact (Probe.ensures_report _ _).bind fun _ _ => .done trivial
    | ok next => exact ih _ _ _

theorem ensures_iterateInterpreters (head : Address) (visit : σ → Address → ForInStep σ)
    (state : σ) : (w.iterateInterpreters head visit state).Ensures fun _ => True :=
  ensures_interpretersFrom hl _ _ _ _ _

end Walker
end StackPeek
