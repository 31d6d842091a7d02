import StackPeek.Layout.Builtin
import StackPeek.Proofs.Thread.Supported
import StackPeek.Sampling.Sampler

/-!
# Sessions without faults

A pool of workers is `Safe` when it has seen no fault and no worker is going to see one. Every
step keeps it so, whichever worker makes it, if no task can end in a fault. With a layout that
was accepted, this leaves no way for a session to end in a fault, and no call in it is answered
with `unsupportedField` (`sample_described`).
-/

namespace StackPeek
variable {α : Type}

namespace Probe
variable {P : α → Prop} {p : Probe α}

theorem Ensures.advance (h : p.Ensures P) : p.advance.Ensures fun rest => rest.Ensures P := by
  cases h with
  | done ha => exact .done (.done ha)
  | read hk => exact .read fun r => .done (hk r)
  | poll hk => exact .poll fun b => .done (hk b)
  | log hk => exact .log (.done hk)

theorem Ensures.settle (h : p.Ensures P) : p.settle.Ensures fun r => ∃ a, r = .ok a ∧ P a := by
  induction h with
  | done ha => exact .done ⟨_, rfl, ha⟩
  | read _ ih => exact .read ih
  | poll _ ih => exact .poll ih
  | log _ ih => exact .log ih

end Probe

/-- What is left of the worker's task does not end in a fault. -/
def Worker.Safe : Worker α → Prop
  | .working _ rest => rest.Ensures fun _ => True
  | _ => True

namespace Pool
variable {tasks : List (Probe α)} {p : Pool α}

structure Safe (p : Pool α) : Prop where
  fault : p.fault = none
  workers : ∀ worker ∈ p.workers, worker.Safe

theorem safe_start (count size : Nat) : (start count size : Pool α).Safe := by
  refine ⟨rfl, ?_⟩
  intro worker hm
  rw [List.eq_of_mem_replicate hm]
  exact trivial

theorem Safe.setWorker (h : p.Safe) (i : Nat) {worker : Worker α} (hw : worker.Safe) :
    (p.setWorker i worker).Safe := by
  refine ⟨h.fault, ?_⟩
  intro other hm
  rcases List.mem_or_eq_of_mem_set hm with hm | rfl
  · exact h.workers other hm
  · exact hw

theorem Safe.store (h : p.Safe) (index : Nat) (a : α) : (p.store index a).Safe :=
  ⟨h.fault, h.workers⟩

theorem Safe.count (h : p.Safe) (n : Nat) : { p with next := n }.Safe := ⟨h.fault, h.workers⟩

section
variable (ht : ∀ task ∈ tasks, task.Ensures fun _ => True)
include ht

theorem ensures_step (h : p.Safe) (i : Nat) : (p.step tasks i).Ensures Safe := by
  unfold step
  cases hw : p.workers[i]? with
  | none => exact .done h
  | some worker =>
    cases worker with
    | finished => exact .done h
    | fetching =>
      refine .done ((h.count _).setWorker i ?_)
      split <;> exact trivial
    | holding k =>
      apply Probe.ensures_cancelled.bind
      intro flag _
      cases hk : tasks[k]? with
      | none => exact .done (h.setWorker i trivial)
      | some task =>
        simp only
        split
        · exact .done (h.setWorker i trivial)
        · exact .done (h.setWorker i (ht task (List.mem_of_getElem? hk)))
    | working k rest =>
      -- One effect of the task is played; what is left of it is as safe as the whole.
      have hrest : rest.Ensures fun _ => True := h.workers _ (List.mem_of_getElem? hw)
      cases hrest with
      | done => exact .done ((h.store _ _).setWorker i trivial)
      | read hk =>
        exact (Probe.Ensures.read hk).advance.bind fun rest hr => .done (h.setWorker i hr)
      | poll hk =>
        exact (Probe.Ensures.poll hk).advance.bind fun rest hr => .done (h.setWorker i hr)
      | log hk =>
        exact (Probe.Ensures.log hk).advance.bind fun rest hr => .done (h.setWorker i hr)

theorem ensures_follow (h : p.Safe) (schedule : Schedule) :
    (follow tasks schedule p).Ensures Safe := by
  induction schedule generalizing p with
  | nil => exact .done h
  | cons i rest ih => exact (ensures_step ht h i).bind fun q hq => ih hq

end

theorem ensures_carryOut (h : p.Safe) (index : Nat) {task : Probe α}
    (ht : task.Ensures fun _ => True) : (p.carryOut index task).Ensures fun r => r.1.Safe := by
  apply ht.settle.bind
  rintro r ⟨a, rfl, -⟩
  exact .done (h.store index a)

theorem ensures_takeRest (ht : ∀ task ∈ tasks, task.Ensures fun _ => True) (h : p.Safe) :
    (takeRest tasks p).Ensures Safe := by
  induction tasks generalizing p with
  | nil => exact .done (h.count _)
  | cons task rest ih =>
    unfold takeRest
    apply Probe.ensures_cancelled.bind
    intro flag _
    split
    · exact .done (h.count _)
    apply (ensures_carryOut (h.count _) _ (ht task List.mem_cons_self)).bind
    rintro ⟨q, goOn⟩ hq
    simp only
    split
    · exact ih (fun t hm => ht t (List.mem_cons_of_mem _ hm)) hq
    · exact .done hq

section
variable (ht : ∀ task ∈ tasks, task.Ensures fun _ => True)
include ht

theorem ensures_finish (h : p.Safe) {worker : Worker α} (hw : worker.Safe) :
    (finish tasks worker p).Ensures Safe := by
  have hdrop : ∀ n, ∀ task ∈ tasks.drop n, task.Ensures fun _ => True :=
    fun n task hm => ht task (List.mem_of_mem_drop hm)
  -- A task that is carried out does not fault, so its worker goes on with what nobody fetched.
  have hgo : ∀ index task, task.Ensures (fun _ => True) →
      ((p.carryOut index task).bind fun r =>
        if r.2 then takeRest (tasks.drop r.1.next) r.1 else .done r.1).Ensures Safe := by
    intro index task htask
    apply (ensures_carryOut h index htask).bind
    intro r hr
    split
    · exact ensures_takeRest (hdrop _) hr
    · exact .done hr
  unfold finish
  cases worker with
  | finished => exact .done h
  | fetching => exact ensures_takeRest (hdrop _) h
  | holding k =>
    apply Probe.ensures_cancelled.bind
    intro flag _
    split
    · exact .done h
    cases hk : tasks[k]? with
    | none => exact .done h
    | some task => exact hgo k task (ht task (List.mem_of_getElem? hk))
  | working k rest => exact hgo k rest hw

theorem ensures_finishAll (h : p.Safe) {workers : List (Worker α)}
    (hw : ∀ worker ∈ workers, worker.Safe) : (finishAll tasks workers p).Ensures Safe := by
  induction workers generalizing p with
  | nil => exact .done h
  | cons worker rest ih =>
    apply (ensures_finish ht h (hw worker List.mem_cons_self)).bind
    intro q hq
    exact ih hq fun other hm => hw other (List.mem_cons_of_mem _ hm)

theorem ensures_run (count : Nat) (schedule : Schedule) :
    (run count schedule tasks).Ensures fun _ => True := by
  apply (ensures_follow ht (safe_start count tasks.length) schedule).bind
  intro p hp
  apply (ensures_finishAll ht hp hp.workers).bind
  intro q hq
  rw [hq.fault]
  exact .done trivial

end
end Pool

namespace Walker
variable {w : Walker}

/-- No call is answered with `unsupportedField`: no copy of a structure, no look at a required
member in a copy or in place, and no decoding of text or bytes, nor any call that the decoder
makes on the way. -/
structure Answered (w : Walker) : Prop where
  copied : ∀ kind, kind ≠ .interpreterState → kind ≠ .cframe →
    ∀ base, (w.readStruct base kind).Plain
  taken : ∀ field ∈ w.layout.required, ∀ s : Snapshot, s.layout = w.layout →
    Described (s.unsigned field) ∧ Described (s.signed field)
  located : ∀ field ∈ w.layout.required, ∀ base, Described (w.fieldAddress base field)
  read : ∀ field ∈ w.layout.required, ∀ base,
    (w.readField base field).Plain ∧ (w.readUnsigned base field).Plain
  text : ∀ address, (w.decodeText address).Plain ∧ w.exactingText address = w.decodeText address
  bytes : ∀ address limit, (w.decodeBytes address limit).Plain ∧
    w.exactingBytes address limit = w.decodeBytes address limit

theorem answered (hl : w.layout.Provides) : w.Answered where
  copied kind hi hc base := plain_readStruct (hl.size_ne_zero hi hc) base
  taken field hf s hs := by
    have hm : (s.layout.spec? field).isSome := by
      rw [hs]
      exact hl.member field hf
    exact ⟨Snapshot.described_pointer hm, Snapshot.described_signed hm⟩
  located field hf base := described_fieldAddress (hl.member field hf) base
  read field hf base :=
    ⟨plain_readField hl (hl.member field hf) base,
      plain_readUnsigned hl (hl.member field hf) base⟩
  text address := ⟨plain_decodeText hl address, exactingText_eq hl address⟩
  bytes address limit :=
    ⟨plain_decodeBytes hl address limit, exactingBytes_eq hl address limit⟩

end Walker

namespace Sampler
variable {w : Walker}

section
variable (hl : w.layout.Provides)
include hl

theorem ensures_walkInTurn (threads : List ThreadHandle) (walked : List CallStack) :
    (walkInTurn w threads walked).Ensures fun _ => True := by
  induction threads generalizing walked with
  | nil => exact .done trivial
  | cons thread rest ih =>
    unfold walkInTurn
    apply Probe.ensures_cancelled.bind
    intro flag _
    split
    · exact .done trivial
    · exact (Walker.walk_ensures hl.toSupports thread).bind fun stack _ => ih _

theorem ensures_walkAll (schedule : Schedule) (threads : List ThreadHandle) :
    (walkAll w schedule threads).Ensures fun _ => True := by
  unfold walkAll
  split
  · apply Pool.ensures_run
    intro task hm
    obtain ⟨thread, -, rfl⟩ := List.mem_map.mp hm
    exact Walker.walk_ensures hl.toSupports thread
  · exact ensures_walkInTurn hl _ _

theorem ensures_sampleInterpreter (schedule : Schedule) (interpreter : Address) (s : Sample) :
    (sampleInterpreter w schedule interpreter s).Ensures fun _ => True := by
  apply (Walker.ensures_enumerateThreads hl interpreter).bind
  intro found _
  have hrest : ∀ f : List CallStack → Sample,
      ((walkAll w schedule found.threads).bind fun walked => .done (f walked)).Ensures
        fun _ => True :=
    fun f => (ensures_walkAll hl schedule _).bind fun _ _ => .done trivial
  simp only
  split
  · exact (Probe.ensures_report _ _).bind fun _ _ => hrest _
  · exact hrest _

theorem ensures_sampleEach (schedule : Schedule) (interpreters : List Address) (s : Sample) :
    (sampleEach w schedule interpreters s).Ensures fun _ => True := by
  induction interpreters generalizing s with
  | nil => exact .done trivial
  | cons interpreter rest ih =>
    unfold sampleEach
    apply Probe.ensures_cancelled.bind
    intro flag _
    split
    · exact .done trivial
    · exact (ensures_sampleInterpreter hl schedule interpreter s).bind fun s' _ => ih s'

end

theorem ensures_conclude (s : Sample) : (conclude s).Ensures fun _ => True :=
  Probe.ensures_cancelled.bind fun _ _ => .done trivial

theorem ensures_sample {sampler : Sampler} (hl : sampler.walker.layout.Provides)
    (schedule : Schedule) (interpreter : Address) :
    (sampler.sample schedule interpreter).Ensures fun _ => True := by
  apply (ensures_sampleInterpreter hl schedule interpreter default).bind
  intro s _
  exact ensures_conclude s

theorem ensures_sampleAll {sampler : Sampler} (hl : sampler.walker.layout.Provides)
    (schedule : Schedule) (main : Address) :
    (sampler.sampleAll schedule main).Ensures fun _ => True := by
  apply (Walker.ensures_iterateInterpreters hl main _ []).bind
  intro r _
  have hrest : ∀ s, ((sampleEach sampler.walker schedule r.state.reverse s).bind
      conclude).Ensures fun _ => True := by
    intro s
    apply (ensures_sampleEach hl schedule _ s).bind
    intro s' _
    exact ensures_conclude s'
  simp only
  split
  · exact (Probe.ensures_report _ _).bind fun _ _ => hrest _
  · exact hrest _

/-- With an accepted layout whose members end at offsets, no call of a session is answered with
`unsupportedField`, whatever the target answers, whatever the limits and the schedule, and
whenever the flag is set. Outside the decoder every call is demanded, so that such an answer
would end the session in a fault, and there is none. -/
theorem sample_described (sampler : Sampler) (h : sampler.walker.layout.Placed) :
    (∀ schedule interpreter, (sampler.sample schedule interpreter).Ensures fun _ => True) ∧
      (∀ schedule main, (sampler.sampleAll schedule main).Ensures fun _ => True) ∧
      sampler.walker.Answered := by
  have hl := Layout.provides_of_placed sampler.valid h
  exact ⟨ensures_sample hl, ensures_sampleAll hl, Walker.answered hl⟩

def pairOfWorkers : Sampler :=
  ⟨⟨.builtin .v311, { Options.standard with walkThreads := 2 }⟩, rfl⟩

theorem sample_described_v311 :
    pairOfWorkers.walker.layout.Placed ∧
      (pairOfWorkers.sample [0, 1, 1] 0x500).Ensures (fun _ => True) ∧
      (pairOfWorkers.sampleAll [] 0x500).Ensures (fun _ => True) ∧
      pairOfWorkers.walker.Answered := by
  have hp : pairOfWorkers.walker.layout.Placed := by decide
  obtain ⟨hone, hall, ha⟩ := sample_described pairOfWorkers hp
  exact ⟨hp, hone [0, 1, 1] 0x500, hall [] 0x500, ha⟩

end Sampler
end StackPeek
