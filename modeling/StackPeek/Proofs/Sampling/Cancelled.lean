import StackPeek.Proofs.Sampling.Looks
import StackPeek.Proofs.Sampling.Whole

/-!
# Cancelling a session

A serial session that is cancelled during a request comes to its end soon (`sample_cancelled`).
A `Stage` is where such a session stands behind the request: which stacks are finished, which
one it is at, and what is left of the part of the program that made the request. `Stage.left` is
all that is left of the session, so that a stage says what the session would do next, with and
without the cancellation.
-/

namespace StackPeek

namespace Sampler
variable {w : Walker} {schedule : Schedule} {interpreter : Address} {s : Sample}

def sampleFound (w : Walker) (schedule : Schedule) (interpreter : Address) (s : Sample)
    (found : ThreadEnumeration) : Probe Sample := do
  let cut := found.incomplete || found.cycleDetected
  if cut then
    Probe.report .info
      (s!"Enumerated {found.threads.length} threads of interpreter " ++
        s!"{Numeral.address interpreter}, list incomplete")
  let walked ← walkAll w schedule found.threads
  return { s with
    callStacks := s.callStacks ++
      walked.map fun stack => { stack with interpreterState := interpreter }
    threadsIncomplete := s.threadsIncomplete || cut }

def sampleListed (w : Walker) (schedule : Schedule) (main : Address)
    (r : ListWalk (List Address)) : Probe Sample := do
  let cut := r.incomplete || r.cycleDetected
  if cut then
    Probe.report .info
      (s!"Enumerated {r.state.length} interpreters from {Numeral.address main}, " ++
        "list incomplete")
  let s ← sampleEach w schedule r.state.reverse ⟨[], cut, false⟩
  conclude s

/-- What comes after an interpreter: those `later` in the list, and the end. -/
def finish (w : Walker) (schedule : Schedule) (later : List Address) (s : Sample) : Probe Sample :=
  (sampleEach w schedule later s).bind conclude

def stackOf (thread : ThreadHandle) (r : Walked) : CallStack :=
  ⟨thread.threadId, thread.address, 0, r.trail.frames.reverse, r.status⟩

def owned (interpreter : Address) (walked : List CallStack) : List CallStack :=
  walked.map fun stack => { stack with interpreterState := interpreter }

/-- The sample with the stacks of one more interpreter. -/
def extend (s : Sample) (interpreter : Address) (cut : Bool) (walked : List CallStack) : Sample :=
  { s with
    callStacks := s.callStacks ++ owned interpreter walked
    threadsIncomplete := s.threadsIncomplete || cut }

/-- Where a session stands in the middle of a stack. -/
structure Walking where
  interpreter : Address
  /-- What was sampled of the interpreters before, and whether the list of threads is cut. -/
  before : Sample
  cut : Bool
  later : List Address
  /-- The thread whose stack it is, those to come, and the stacks of those before, latest first. -/
  thread : ThreadHandle
  pending : List ThreadHandle
  walked : List CallStack
  /-- The frame that is being read, and what the walk has seen up to it. -/
  room : Nat
  address : Address
  trail : Trail

/-- Where a session stands behind a request. What is left of the list, or of the frame, that the
request was made for is `rest`. -/
inductive Stage where
  | interpreters (main : Address) (rest : Probe (ListWalk (List Address)))
  | threads (interpreter : Address) (before : Sample) (later : List Address)
    (rest : Probe ThreadEnumeration)
  | frame (walking : Walking) (rest : Probe (Option Walker.Found))

namespace Stage

def left (w : Walker) (schedule : Schedule) : Stage → Probe Sample
  | interpreters main rest => rest.bind (sampleListed w schedule main)
  | threads interpreter before later rest =>
    rest.bind fun found =>
      (sampleFound w schedule interpreter before found).bind (finish w schedule later)
  | frame k rest =>
    rest.bind fun found =>
      (w.goOn k.thread.threadId k.room k.address k.trail found).bind fun r =>
        (walkInTurn w k.pending (stackOf k.thread r :: k.walked)).bind fun walked =>
          finish w schedule k.later (extend k.before k.interpreter k.cut walked)

def finished : Stage → List CallStack
  | interpreters .. => []
  | threads _ before _ _ => before.callStacks
  | frame k _ => k.before.callStacks ++ owned k.interpreter k.walked.reverse

/-- The sample has the stacks that are finished, and that of the thread it is at if it is at
one, with at most one more frame. -/
def Keeps (taken : Sample) : Stage → Prop
  | frame k rest => ∃ more status, more.length ≤ 1 ∧
    taken.callStacks = (frame k rest).finished ++
      [⟨k.thread.threadId, k.thread.address, k.interpreter, k.trail.frames.reverse ++ more, status⟩]
  | stage => taken.callStacks = stage.finished

def Prompt : Stage → Prop
  | interpreters _ rest => rest.Prompt 0
  | threads _ _ _ rest => rest.Prompt 1
  | frame _ rest => rest.Prompt 9

end Stage

theorem walkAll_serial (hserial : w.options.walkThreads ≤ 1) (threads : List ThreadHandle) :
    walkAll w schedule threads = walkInTurn w threads [] :=
  if_neg fun hp => UInt64.not_lt.mpr hserial hp.1

theorem sampleInterpreter_found :
    sampleInterpreter w schedule interpreter s =
      (w.enumerateThreads interpreter).bind (sampleFound w schedule interpreter s) := rfl

theorem sampleAll_listed (sampler : Sampler) (main : Address) :
    sampler.sampleAll schedule main =
      (sampler.walker.iterateInterpreters main (fun seen i => .yield (i :: seen)) []).bind
        (sampleListed sampler.walker schedule main) := rfl

section Set

theorem stops_conclude : (conclude s).Stops (· = { s with cancelled := true }) 0 :=
  .poll (.done rfl)

theorem stops_sampleEach (interpreters : List Address) :
    (sampleEach w schedule interpreters s).Stops (· = s) 0 := by
  cases interpreters with
  | nil => exact .done rfl
  | cons => exact .poll (.done rfl)

theorem stops_finish (later : List Address) :
    (finish w schedule later s).Stops (· = { s with cancelled := true }) 0 := by
  refine (stops_sampleEach later).bind_now ?_
  rintro _ rfl
  exact stops_conclude

theorem stops_walkInTurn (threads : List ThreadHandle) (walked : List CallStack) :
    (walkInTurn w threads walked).Stops (· = walked.reverse) 0 := by
  cases threads with
  | nil => exact .done rfl
  | cons => exact .poll (.done rfl)

theorem stops_sampleFound (hserial : w.options.walkThreads ≤ 1) (found : ThreadEnumeration) :
    (sampleFound w schedule interpreter s found).Stops
      (fun x => x.callStacks = s.callStacks) 0 := by
  have hwalk (f : List CallStack → Sample) (hf : (f []).callStacks = s.callStacks) :
      ((walkAll w schedule found.threads).bind fun walked => .done (f walked)).Stops
        (fun x => x.callStacks = s.callStacks) 0 := by
    rw [walkAll_serial hserial]
    refine (stops_walkInTurn _ _).bind_now ?_
    rintro _ rfl
    exact .done hf
  unfold sampleFound
  simp only
  split
  · exact .log (hwalk _ (List.append_nil _))
  · exact hwalk _ (List.append_nil _)

theorem stops_sampleListed (main : Address) (r : ListWalk (List Address)) :
    (sampleListed w schedule main r).Stops
      (fun taken => taken.cancelled = true ∧ taken.callStacks = []) 0 := by
  have hrest (cut : Bool) : ((sampleEach w schedule r.state.reverse ⟨[], cut, false⟩).bind
      conclude).Stops (fun taken => taken.cancelled = true ∧ taken.callStacks = []) 0 := by
    refine (stops_finish (s := ⟨[], cut, false⟩) r.state.reverse).weaken ?_
    rintro _ rfl
    exact ⟨rfl, rfl⟩
  unfold sampleListed
  simp only
  split
  · exact .log (hrest _)
  · exact hrest _

/-- A session that was cancelled at a stage keeps what it has. -/
theorem Stage.stops (hserial : w.options.walkThreads ≤ 1) {stage : Stage} (h : stage.Prompt) :
    (stage.left w schedule).Stops (fun taken => taken.cancelled = true ∧ stage.Keeps taken) 9 := by
  cases stage with
  | interpreters main rest =>
    exact (h.stops.bind_now fun r _ => stops_sampleListed main r).mono (Nat.zero_le 9)
  | threads interpreter before later rest =>
    refine (h.stops.bind_now fun found _ => ?_).mono (by decide)
    refine (stops_sampleFound hserial found).bind_now fun x hx => ?_
    refine (stops_finish later).weaken ?_
    rintro _ rfl
    exact ⟨rfl, hx⟩
  | frame k rest =>
    refine h.stops.bind_now fun found _ => ?_
    refine (Walker.stops_goOn _ _ _ found).bind_now ?_
    rintro r ⟨more, hmore, hframes⟩
    refine (stops_walkInTurn _ _).bind_now ?_
    rintro _ rfl
    refine (stops_finish k.later).weaken ?_
    rintro _ rfl
    refine ⟨rfl, more.reverse, r.status, by rwa [List.length_reverse], ?_⟩
    simp only [extend, Stage.finished, owned, stackOf, hframes, List.reverse_cons,
      List.reverse_append, List.map_append, List.map_cons, List.map_nil, List.append_assoc]

end Set

section Any
variable (hl : w.layout.Provides)
include hl

theorem keeps_walkInTurn (threads : List ThreadHandle) (walked : List CallStack) :
    (walkInTurn w threads walked).Ensures (walked.reverse <+: ·) := by
  induction threads generalizing walked with
  | nil => exact .done (List.prefix_refl _)
  | cons thread rest ih =>
    unfold walkInTurn
    apply Probe.ensures_cancelled.bind
    intro flag _
    split
    · exact .done (List.prefix_refl _)
    apply (Walker.walk_ensures hl.toSupports thread).bind
    intro stack _
    refine (ih (stack :: walked)).mono fun walked' hw => ?_
    rw [List.reverse_cons] at hw
    exact (List.prefix_append _ _).trans hw

theorem keeps_sampleFound (found : ThreadEnumeration) :
    (sampleFound w schedule interpreter s found).Ensures
      (fun x => s.callStacks <+: x.callStacks) := by
  have hwalk := fun (cut : Bool) => (ensures_walkAll hl schedule found.threads).bind
    (Q := fun x : Sample => s.callStacks <+: x.callStacks)
    (f := fun walked => .done (extend s interpreter cut walked))
    fun walked _ => .done (List.prefix_append _ _)
  unfold sampleFound
  simp only
  split
  · exact .log (hwalk _)
  · exact hwalk _

theorem keeps_finish (later : List Address) :
    (finish w schedule later s).Ensures (fun x => s.callStacks <+: x.callStacks) := by
  have heach : (sampleEach w schedule later s).Ensures
      (fun x => s.callStacks <+: x.callStacks) := by
    induction later generalizing s with
    | nil => exact .done (List.prefix_refl _)
    | cons interpreter rest ih =>
      unfold sampleEach
      apply Probe.ensures_cancelled.bind
      intro flag _
      split
      · exact .done (List.prefix_refl _)
      rw [sampleInterpreter_found, Probe.bind_eq, Probe.bind_assoc]
      apply (Walker.ensures_enumerateThreads hl interpreter).bind
      intro found _
      apply (keeps_sampleFound hl found).bind
      intro x hx
      exact ih.mono fun y hy => hx.trans hy
  exact heach.bind fun x hx => .poll fun _ => .done hx

/-- Whatever the flag says from a stage on, the finished stacks stay as they are. -/
theorem Stage.ensures {stage : Stage} (h : stage.Prompt) :
    (stage.left w schedule).Ensures (fun taken => stage.finished <+: taken.callStacks) := by
  cases stage with
  | interpreters main rest =>
    refine h.ensures.bind fun r _ => ?_
    have hrest (cut : Bool) : (finish w schedule r.state.reverse ⟨[], cut, false⟩).Ensures
        fun taken => [] <+: taken.callStacks :=
      (keeps_finish hl r.state.reverse).mono fun _ _ => List.nil_prefix
    unfold sampleListed
    simp only
    split
    · exact .log (hrest _)
    · exact hrest _
  | threads interpreter before later rest =>
    refine h.ensures.bind fun found _ => (keeps_sampleFound hl found).bind fun x hx => ?_
    exact (keeps_finish hl later).mono fun taken ht => hx.trans ht
  | frame k rest =>
    refine h.ensures.bind fun found _ => ?_
    refine (Walker.ensures_goOn hl.toSupports _ _ _ found).bind fun r _ => ?_
    refine (keeps_walkInTurn hl _ _).bind fun walked hw => ?_
    refine (keeps_finish hl k.later).mono fun taken ht => ?_
    rw [List.reverse_cons] at hw
    have hwalked : k.walked.reverse <+: walked := (List.prefix_append _ _).trans hw
    refine List.IsPrefix.trans ?_ ht
    exact (List.prefix_append_right_inj _).mpr (hwalked.map _)

end Any

/-- The program is what is left at some stage. -/
def Standing (w : Walker) (schedule : Schedule) (p : Probe Sample) : Prop :=
  ∃ stage : Stage, p = stage.left w schedule ∧ stage.Prompt

theorem afterReads_walkInTurn (hl : w.layout.Supports) {G : Probe (List CallStack) → Prop}
    (hG : ∀ (thread : ThreadHandle) (pending : List ThreadHandle) (walked : List CallStack)
      (room : Nat) (address : Address) (t : Trail) (rest : Probe (Option Walker.Found)),
      rest.Prompt 9 → G (rest.bind fun found =>
        (w.goOn thread.threadId room address t found).bind fun r =>
          walkInTurn w pending (stackOf thread r :: walked)))
    (threads : List ThreadHandle) (walked : List CallStack) :
    (walkInTurn w threads walked).AfterReads G := by
  induction threads generalizing walked with
  | nil => exact .done _
  | cons thread pending ih =>
    have hturn : (w.walk thread).bind (fun stack => walkInTurn w pending (stack :: walked)) =
        (w.walkFrom thread.threadId w.options.maxStackDepth.toNat thread.frame
          (.start thread.frameUnavailable)).bind fun r =>
            walkInTurn w pending (stackOf thread r :: walked) := Probe.bind_assoc _ _ _
    unfold walkInTurn
    refine .poll ?_
    simp only [Bool.false_eq_true, if_false, Probe.done_bind, Probe.bind_eq]
    rw [hturn]
    refine .bind (Walker.afterReads_walkFrom hl ?_ _ _ _) fun r => ih _
    intro room address t rest hrest
    rw [Probe.bind_assoc]
    exact hG thread pending walked room address t rest hrest

section Unset
variable (hl : w.layout.Provides) (hserial : w.options.walkThreads ≤ 1)
include hl hserial

theorem afterReads_sampleFound (later : List Address) (found : ThreadEnumeration) :
    (sampleFound w schedule interpreter s found).AfterReads fun q =>
      Standing w schedule (q.bind (finish w schedule later)) := by
  have hwalk (cut : Bool) : ((walkAll w schedule found.threads).bind fun walked =>
      .done (extend s interpreter cut walked)).AfterReads fun q =>
        Standing w schedule (q.bind (finish w schedule later)) := by
    rw [walkAll_serial hserial]
    refine .bind (afterReads_walkInTurn hl.toSupports ?_ _ _) fun _ => .done _
    intro thread pending walked room address t rest hrest
    refine ⟨.frame ⟨interpreter, s, cut, later, thread, pending, walked, room, address, t⟩ rest,
      ?_, hrest⟩
    simp only [Stage.left, Probe.bind_assoc, Probe.done_bind]
  unfold sampleFound
  simp only
  split
  · exact .log (hwalk _)
  · exact hwalk _

variable (hp : w.layout.PlainLinks)
include hp

theorem afterReads_sampleInterpreter (later : List Address) :
    (sampleInterpreter w schedule interpreter s).AfterReads fun q =>
      Standing w schedule (q.bind (finish w schedule later)) := by
  rw [sampleInterpreter_found]
  have hthreads := Walker.afterReads_enumerateThreads hl hp interpreter
  refine .bind (hthreads.mono fun rest hrest => ?_) (afterReads_sampleFound hl hserial later)
  exact ⟨.threads interpreter s later rest, Probe.bind_assoc _ _ _, hrest⟩

theorem afterReads_finish (later : List Address) :
    (finish w schedule later s).AfterReads (Standing w schedule) := by
  have heach : (sampleEach w schedule later s).AfterReads fun q =>
      Standing w schedule (q.bind conclude) := by
    induction later generalizing s with
    | nil => exact .done _
    | cons interpreter rest ih =>
      unfold sampleEach
      refine .poll ?_
      simp only [Bool.false_eq_true, if_false, Probe.done_bind, Probe.bind_eq]
      refine .bind ?_ fun x => ih
      refine (afterReads_sampleInterpreter hl hserial hp rest).mono fun q hq => ?_
      rwa [Probe.bind_assoc]
  exact .bind heach fun x => .poll (.done _)

theorem afterReads_sampleListed (main : Address) (r : ListWalk (List Address)) :
    (sampleListed w schedule main r).AfterReads (Standing w schedule) := by
  unfold sampleListed
  simp only
  split
  · exact .log (afterReads_finish hl hserial hp _)
  · exact afterReads_finish hl hserial hp _

end Unset

/-- A serial session that is cancelled during a request, whichever it is and whatever the target
answers, makes at most nine more. It ends in a sample that is marked as cancelled. The stack it
is at gets at most one more frame, no other stack is begun, and those that are finished are the
ones that the session has in that place when it goes on in any other way. -/
theorem sample_cancelled (sampler : Sampler) (id : LayoutId)
    (hid : sampler.walker.layout = .builtin id)
    (hserial : sampler.walker.options.walkThreads ≤ 1) (schedule : Schedule) (start : Address) :
    ∀ session ∈ [sampler.sample schedule start, sampler.sampleAll schedule start],
      ∀ {es later : List Event} {a : Address} {n : UInt64} {reply : Reply}
        {r : Except Fault Sample},
      Calm es → .poll false ∉ later → session.Course (es ++ .read a n reply :: later) r →
      ∃ stage : Stage,
        session.Leaves (es ++ [.read a n reply]) (stage.left sampler.walker schedule) ∧
        later.countP Event.asks ≤ 9 ∧
        (∃ taken, r = .ok taken ∧ taken.cancelled = true ∧ stage.Keeps taken) ∧
        ∀ later' r', session.Course (es ++ .read a n reply :: later') r' →
          ∃ taken, r' = .ok taken ∧ stage.finished <+: taken.callStacks := by
  have hlinks : sampler.walker.layout.PlainLinks := by
    rw [hid]
    exact Layout.builtin_plainLinks id
  have hprovides : sampler.walker.layout.Provides := by
    refine Layout.provides_of_placed sampler.valid ?_
    rw [hid]
    cases id <;> decide
  have hsession : ∀ session ∈ [sampler.sample schedule start, sampler.sampleAll schedule start],
      session.AfterReads (Standing sampler.walker schedule) := by
    intro session hm
    rcases List.mem_cons.mp hm with rfl | hm
    · refine .bind ?_ fun s => .poll (.done _)
      exact afterReads_sampleInterpreter hprovides hserial hlinks []
    · obtain rfl := List.mem_singleton.mp hm
      rw [sampleAll_listed]
      have hlist := Walker.heeds_interpretersFrom hprovides hlinks
        (fun seen i => .yield (i :: seen)) sampler.walker.options.maxThreads.toNat start []
        (.start [])
      refine .bind (hlist.after.mono fun rest hrest => ?_)
        (afterReads_sampleListed hprovides hserial hlinks start)
      exact ⟨.interpreters start rest, rfl, hrest⟩
  intro session hm es later a n reply r hcalm hset hc
  obtain ⟨rest, hleaves, stage, rfl, hprompt⟩ := (hsession session hm).cut hcalm hc
  have hassoc (tail : List Event) :
      es ++ .read a n reply :: tail = es ++ [.read a n reply] ++ tail := by
    rw [List.append_assoc]
    rfl
  rw [hassoc] at hc
  obtain ⟨hcount, htaken⟩ := (Stage.stops hserial hprompt).course hset (hleaves.course hc)
  refine ⟨stage, hleaves, hcount, htaken, ?_⟩
  intro later' r' hc'
  rw [hassoc] at hc'
  exact (Stage.ensures hprovides hprompt).course (hleaves.course hc')

/-- Memory that does not change, where somebody cancels during the request with number `limit`. -/
def cancelling (m : StillMemory) (limit : Nat) : Target Nat where
  read a n asked := (m a n, asked + 1)
  cancelled asked := decide (limit ≤ asked)
  hear _ asked := asked

theorem cancelling_latching (m : StillMemory) (limit : Nat) : (cancelling m limit).Latching where
  read _ _ _ h := decide_eq_true (Nat.le_succ_of_le (of_decide_eq_true h))
  hear _ _ h := h

/-- What there is of the pair when somebody cancels during the request for the second frame. -/
def cutPair : Sample := ⟨wholePair.callStacks.take 2, false, true⟩

theorem run_cutPair :
    let t := cancelling pairMemory 17
    ((pairSampler.sampleAll [] 0x700).run t 0).1.toOption = some cutPair ∧
      t.cancelled ((pairSampler.sampleAll [] 0x700).run t 0).2 = true := by
  rw [pairMemory, Regions.still_ofObjects]
  decide +kernel

/-- The second frame is still resolved, and its stack is complete. Without the cancellation there
would be the stack of a third thread. -/
theorem sample_cancelled_pair :
    ∃ (es later : List Event) (a : Address) (n : UInt64) (reply : Reply) (stage : Stage),
      Calm es ∧ .poll false ∉ later ∧
      (pairSampler.sampleAll [] 0x700).Course (es ++ .read a n reply :: later) (.ok cutPair) ∧
      (pairSampler.sampleAll [] 0x700).Leaves (es ++ [.read a n reply])
        (stage.left pairSampler.walker []) ∧
      later.countP Event.asks ≤ 9 ∧ stage.Keeps cutPair ∧
      stage.finished <+: wholePair.callStacks := by
  obtain ⟨hcut, hend⟩ := run_cutPair
  have hrest : (cancelling pairMemory 17).uncancelled.AtRest pairMemory :=
    ⟨fun _ _ _ => rfl, fun _ => rfl⟩
  have hwhole := run_wholePair
  rw [Probe.run_atRest pairMemory.target_atRest, ← Probe.run_atRest hrest _ 0] at hwhole
  obtain ⟨es, a, n, reply, later, later', hcalm, hset, hc, hc'⟩ := Probe.cancelled_course_of_run
    (cancelling_latching pairMemory 17) (fun _ _ => rfl) (pairSampler.sampleAll [] 0x700) 0
    (by decide) hend
  rw [ok_of_toOption hcut] at hc
  rw [hwhole] at hc'
  obtain ⟨stage, hleaves, hcount, ⟨taken, htaken, -, hkeeps⟩, hother⟩ :=
    sample_cancelled pairSampler .v33 rfl (by decide) [] 0x700 _
      (List.mem_cons_of_mem _ List.mem_cons_self) hcalm hset hc
  cases htaken
  obtain ⟨_, hw, hprefix⟩ := hother later' _ hc'
  cases hw
  exact ⟨es, later, a, n, reply, stage, hcalm, hset, hc, hleaves, hcount, hkeeps, hprefix⟩

end Sampler
end StackPeek
