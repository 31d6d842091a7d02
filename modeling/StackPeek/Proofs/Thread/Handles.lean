import StackPeek.Proofs.Probe.Replies
import StackPeek.Proofs.Sampling.Bounded

/-!
# Handles that are not torn

The members of a frame, of a code object or of a thread state are taken from one copy, so a target
that changes between two requests cannot mix them up (`handles_untorn`). Only the frame of a thread
that is reached through another record comes from a request of its own. What else the handle of such
a thread says, and where that record is, is decided by the first answer.
-/

namespace StackPeek

/-- What a thread state says itself, without the link to its frame. -/
def ThreadHandle.own (h : ThreadHandle) : Address × Address × UInt64 :=
  (h.address, h.next, h.threadId)

namespace Walker
open Attempt
variable {w : Walker} {α β γ : Type} {g : Except ReadError β → γ} {n : Nat}

theorem settles_demanded (field : Field) (r : Except ReadError α) {f : Unit → Attempt β}
    (hf : (f ()).run.Settles g n) :
    ((liftM (w.demand field r) : Attempt Unit) >>= f).run.Settles g n := by
  unfold demand
  split
  · exact .now fun _ _ => rfl
  · exact hf

theorem settles_ofExcept (r : Except ReadError α) {f : α → Attempt β}
    (hf : ∀ a, (f a).run.Settles g n) :
    ((liftM r : Attempt α) >>= f).run.Settles g n := by
  rw [run_bind, run_ofExcept]
  cases r with
  | error e => exact .now fun _ _ => rfl
  | ok a => exact hf a

theorem costs_threadFrame_direct {polls : Bool} (hd : w.layout.frameLink = .direct)
    (thread : Address) (s : Snapshot) : (w.threadFrame thread s).Costs polls 0 := by
  unfold threadFrame
  rw [hd]
  exact costs_demanded _ _ ((costs_ofExcept _).bind_free fun frame => costs_pure _)

theorem costs_readThread_direct {polls : Bool} (hd : w.layout.frameLink = .direct)
    (thread : Address) : (w.readThread thread).Costs polls 1 := by
  refine (costs_demandRead (costs_readStruct _ _) _).bind (k := 0) fun s => ?_
  refine costs_demanded _ _ (costs_demanded _ _ ?_)
  refine (costs_ofExcept _).bind_free fun next => ?_
  refine (costs_ofExcept _).bind_free fun threadId => ?_
  exact (costs_threadFrame_direct hd thread s).bind_free fun link => costs_pure _

/-- Whatever comes of the record behind a thread state, it changes nothing but the frame. -/
theorem settles_threadHandle (hl : w.layout.Provides) (hv : w.layout.frameLink = .viaCFrame)
    (thread : Address) (s : Snapshot) :
    (w.threadHandle thread s).run.Settles (Except.map ThreadHandle.own) n := by
  unfold threadHandle
  refine settles_demanded _ _ (settles_demanded _ _ ?_)
  refine settles_ofExcept _ fun next => settles_ofExcept _ fun threadId => ?_
  unfold threadFrame
  simp only [hv, bind_assoc]
  refine settles_demanded _ _ (settles_ofExcept _ fun cframe => ?_)
  by_cases h0 : cframe = 0
  · rw [if_pos h0]
    exact .now fun _ _ => rfl
  · rw [if_neg h0, run_bind, run_lift, Probe.bind_assoc]
    refine .of_ensures (b := .ok (thread, next, threadId)) ?_
    exact (ensures_cframeFrame hl hv thread cframe).bind fun link _ => .done rfl

theorem settles_readThread (hl : w.layout.Provides) (hv : w.layout.frameLink = .viaCFrame)
    (thread : Address) :
    (w.readThread thread).run.Settles (Except.map ThreadHandle.own) 1 := by
  unfold readThread
  rw [run_bind]
  refine Probe.Settles.of_bind (costs_demandRead (costs_readStruct thread .threadState) .threadNext)
    fun left r => ?_
  cases r with
  | error e => exact .now fun _ _ => rfl
  | ok s => exact settles_threadHandle hl hv thread s

/-- With a known build, a frame, a code object and a thread that names its frame are read with at
most one request, and its answer decides the handle or the error. A thread behind another record is
read with at most two, and the first answer decides its own members and where the record is. -/
theorem handles_untorn (id : LayoutId) (o : Options) (a : Address) :
    let w : Walker := ⟨.builtin id, o⟩
    (w.readFrame a).run.Untorn ∧ (w.readCode a).run.Untorn ∧
      match (Layout.builtin id).frameLink with
      | .direct => (w.readThread a).run.Untorn
      | .viaCFrame => (w.readThread a).run.FirstDecides (Except.map ThreadHandle.own) := by
  intro w
  refine ⟨Probe.untorn_of_spends (costs_readFrame a), Probe.untorn_of_spends (costs_readCode a), ?_⟩
  cases hlink : (Layout.builtin id).frameLink with
  | direct => exact Probe.untorn_of_spends (costs_readThread_direct hlink a)
  | viaCFrame =>
    have hl : w.layout.Provides := Layout.builtin_provides id
    exact Probe.firstDecides_of_settles (costs_readThread (Layout.builtin_plainLinks id) a)
      (settles_readThread hl hlink a)

end Walker
end StackPeek
