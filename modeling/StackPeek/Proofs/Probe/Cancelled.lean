import StackPeek.Proofs.Probe.Ensures
import StackPeek.Proofs.Probe.Latch
import StackPeek.Proofs.Probe.Spends

/-!
# Cancelling a probe at a request

A course that finds the flag unset up to some request and set behind it belongs to a session
that was cancelled during that request. `AfterReads` says what is left of the probe at any such
point, and `Stops` what it still does there (`AfterReads.cut`, `Stops.course`). Both look at one
answer of the flag only, so they are proved along the probe like `Ensures` and `Spends`.
-/

namespace StackPeek
variable {α β σ : Type}

def Event.asks : Event → Bool
  | .read .. => true
  | _ => false

theorem Calm.cons {e : Event} {es : List Event} (h : Calm es) (he : .poll true ≠ e) :
    Calm (e :: es) := by
  intro hm
  rcases List.mem_cons.mp hm with rfl | hm
  · exact he rfl
  · exact h hm

theorem Calm.of_cons {e : Event} {es : List Event} (h : Calm (e :: es)) : Calm es :=
  fun hm => h (List.mem_cons_of_mem e hm)

def Target.uncancelled (t : Target σ) : Target σ := { t with cancelled := fun _ => false }

namespace Probe

/-- `p.Leaves es rest`: given the answers in `es`, the probe does `es`, and `rest` is left. -/
inductive Leaves {α : Type} : Probe α → List Event → Probe α → Prop where
  | nil (p : Probe α) : Leaves p [] p
  | read {a : Address} {n : UInt64} {k : Reply → Probe α} (reply : Reply) {es : List Event}
      {rest : Probe α} : Leaves (k reply) es rest →
      Leaves (.read a n k) (.read a n reply :: es) rest
  | poll {k : Bool → Probe α} (flag : Bool) {es : List Event} {rest : Probe α} :
      Leaves (k flag) es rest → Leaves (.poll k) (.poll flag :: es) rest
  | log {e : Log.Entry} {k : Probe α} {es : List Event} {rest : Probe α} :
      Leaves k es rest → Leaves (.log e k) (.log e :: es) rest

/-- Once the flag is set, at most so many requests and no fault, and `P` holds of the value. -/
inductive Stops (P : α → Prop) : Nat → Probe α → Prop where
  | done {n : Nat} {a : α} : P a → Stops P n (.done a)
  | read {n : Nat} {a : Address} {length : UInt64} {k : Reply → Probe α} :
      (∀ r, Stops P n (k r)) → Stops P (n + 1) (.read a length k)
  | poll {n : Nat} {k : Bool → Probe α} : Stops P n (k true) → Stops P n (.poll k)
  | log {n : Nat} {e : Log.Entry} {k : Probe α} : Stops P n k → Stops P n (.log e k)

/-- As long as the flag is unset, `G` holds of what is left after every request. -/
inductive AfterReads (G : Probe α → Prop) : Probe α → Prop where
  | done (a : α) : AfterReads G (.done a)
  | fault (f : Fault) : AfterReads G (.fault f)
  | read {a : Address} {n : UInt64} {k : Reply → Probe α} :
      (∀ r, G (k r)) → (∀ r, AfterReads G (k r)) → AfterReads G (.read a n k)
  | poll {k : Bool → Probe α} : AfterReads G (k false) → AfterReads G (.poll k)
  | log {e : Log.Entry} {k : Probe α} : AfterReads G k → AfterReads G (.log e k)

/-- It never ends in a fault, and once the flag is set it asks at most so many times. -/
structure Prompt (n : Nat) (p : Probe α) : Prop where
  stops : p.Stops (fun _ => True) n
  ensures : p.Ensures fun _ => True

/-- A flag that is set at the start is seen before any request, and one that is set during a
request is seen soon. -/
structure Heeds (n : Nat) (p : Probe α) : Prop where
  now : p.Prompt 0
  after : p.AfterReads (Prompt n)

section
variable {P : α → Prop} {Q : β → Prop} {p : Probe α} {f : α → Probe β} {n k : Nat}

theorem Ensures.course {es : List Event} {r : Except Fault α} (h : p.Ensures P)
    (hc : p.Course es r) : ∃ a, r = .ok a ∧ P a := by
  induction hc with
  | done a =>
    cases h with
    | done ha => exact ⟨a, rfl, ha⟩
  | fault => cases h
  | read reply _ ih =>
    cases h with
    | read hk => exact ih (hk reply)
  | poll flag _ ih =>
    cases h with
    | poll hk => exact ih (hk flag)
  | log _ ih =>
    cases h with
    | log hk => exact ih hk

theorem Leaves.course {rest : Probe α} {es es' : List Event} {r : Except Fault α}
    (h : p.Leaves es rest) (hc : p.Course (es ++ es') r) : rest.Course es' r := by
  induction h with
  | nil => exact hc
  | read reply _ ih =>
    cases hc with
    | read _ hc => exact ih hc
  | poll flag _ ih =>
    cases hc with
    | poll _ hc => exact ih hc
  | log _ ih =>
    cases hc with
    | log hc => exact ih hc

namespace Stops

theorem mono (h : p.Stops P n) (hn : n ≤ k) : p.Stops P k := by
  induction h generalizing k with
  | done ha => exact .done ha
  | read _ ih =>
    obtain ⟨j, rfl⟩ := Nat.exists_eq_add_of_le' (Nat.lt_of_lt_of_le (Nat.succ_pos _) hn)
    exact .read fun r => ih r (Nat.le_of_succ_le_succ hn)
  | poll _ ih => exact .poll (ih hn)
  | log _ ih => exact .log (ih hn)

theorem bind (h : p.Stops P n) (hf : ∀ a, P a → (f a).Stops Q k) : (p.bind f).Stops Q (n + k) := by
  induction h with
  | done ha => exact (hf _ ha).mono (Nat.le_add_left _ _)
  | read _ ih =>
    rw [Nat.add_right_comm]
    exact .read ih
  | poll _ ih => exact .poll ih
  | log _ ih => exact .log ih

theorem bind_now (h : p.Stops P n) (hf : ∀ a, P a → (f a).Stops Q 0) : (p.bind f).Stops Q n :=
  h.bind hf

theorem weaken {P' : α → Prop} (h : p.Stops P n) (hp : ∀ a, P a → P' a) : p.Stops P' n := by
  induction h with
  | done ha => exact .done (hp _ ha)
  | read _ ih => exact .read ih
  | poll _ ih => exact .poll ih
  | log _ ih => exact .log ih

theorem of_spends {polls : Bool} (h : p.Spends polls (fun _ _ => True) n) (he : p.Ensures P) :
    p.Stops P n := by
  induction h with
  | done =>
    cases he with
    | done ha => exact .done ha
  | fault => cases he
  | read _ _ ih =>
    cases he with
    | read hk => exact .read fun r => ih r (hk r)
  | poll _ _ ih =>
    cases he with
    | poll hk => exact .poll (ih true (hk true))
  | log _ ih =>
    cases he with
    | log hk => exact .log (ih hk)

theorem course {es : List Event} {r : Except Fault α} (h : p.Stops P n) (hset : .poll false ∉ es)
    (hc : p.Course es r) : es.countP Event.asks ≤ n ∧ ∃ a, r = .ok a ∧ P a := by
  induction hc generalizing n with
  | done a =>
    cases h with
    | done ha => exact ⟨Nat.zero_le n, a, rfl, ha⟩
  | fault => cases h
  | read reply _ ih =>
    cases h with
    | read hk =>
      obtain ⟨hcount, ha⟩ := ih (hk reply) fun hm => hset (List.mem_cons_of_mem _ hm)
      refine ⟨?_, ha⟩
      rw [List.countP_cons_of_pos rfl]
      exact Nat.succ_le_succ hcount
  | poll flag _ ih =>
    cases flag with
    | false => exact absurd List.mem_cons_self hset
    | true =>
      cases h with
      | poll hk => exact ih hk fun hm => hset (List.mem_cons_of_mem _ hm)
  | log _ ih =>
    cases h with
    | log hk => exact ih hk fun hm => hset (List.mem_cons_of_mem _ hm)

end Stops

theorem Prompt.bind {f : α → Probe β} (h : p.Prompt n) (hf : ∀ a, (f a).Prompt 0) :
    (p.bind f).Prompt n :=
  ⟨h.stops.bind_now fun a _ => (hf a).stops, h.ensures.bind fun a _ => (hf a).ensures⟩

namespace AfterReads
variable {G : Probe α → Prop}

theorem mono {G' : Probe α → Prop} (h : p.AfterReads G) (hG : ∀ q, G q → G' q) :
    p.AfterReads G' := by
  induction h with
  | done a => exact .done a
  | fault x => exact .fault x
  | read hk _ ih => exact .read (fun r => hG _ (hk r)) ih
  | poll _ ih => exact .poll ih
  | log _ ih => exact .log ih

theorem bind {G : Probe β → Prop} (h : p.AfterReads fun q => G (q.bind f))
    (hf : ∀ a, (f a).AfterReads G) : (p.bind f).AfterReads G := by
  induction h with
  | done a => exact hf a
  | fault x => exact .fault x
  | read hk _ ih => exact .read hk ih
  | poll _ ih => exact .poll ih
  | log _ ih => exact .log ih

theorem bind_heeds (h : p.AfterReads (Prompt n)) (hf : ∀ a, (f a).Heeds n) :
    (p.bind f).AfterReads (Prompt n) :=
  bind (h.mono fun _ hq => hq.bind fun a => (hf a).now) fun a => (hf a).after

theorem of_spends {polls : Bool} (h : p.Spends polls (fun _ _ => True) k)
    (he : p.Ensures fun _ => True) (hk : k ≤ n + 1) : p.AfterReads (Prompt n) := by
  induction h with
  | done => exact .done _
  | fault => exact .fault _
  | @read m _ _ _ _ hs ih =>
    cases he with
    | read he =>
      have hm : m ≤ n := Nat.le_of_succ_le_succ hk
      refine .read (fun r => ⟨(Stops.of_spends (hs r) (he r)).mono hm, he r⟩) fun r => ?_
      exact ih r (he r) (Nat.le_succ_of_le hm)
  | poll _ _ ih =>
    cases he with
    | poll he => exact .poll (ih false (he false) hk)
  | log _ ih =>
    cases he with
    | log he => exact .log (ih he hk)

/-- A course in which the flag is unset up to a request has come to a point where `G` holds. -/
theorem cut (h : p.AfterReads G) {es later : List Event} {a : Address} {n : UInt64} {reply : Reply}
    {r : Except Fault α} (hcalm : Calm es) (hc : p.Course (es ++ .read a n reply :: later) r) :
    ∃ rest, p.Leaves (es ++ [.read a n reply]) rest ∧ G rest := by
  induction h generalizing es with
  | done | fault => cases es <;> cases hc
  | read hk _ ih =>
    cases es with
    | nil =>
      cases hc with
      | read => exact ⟨_, .read reply (.nil _), hk reply⟩
    | cons e es =>
      cases hc with
      | read reply' hc =>
        obtain ⟨rest, hleaves, hrest⟩ := ih reply' hcalm.of_cons hc
        exact ⟨rest, .read reply' hleaves, hrest⟩
  | poll _ ih =>
    cases es with
    | nil => cases hc
    | cons e es =>
      cases hc with
      | poll flag hc =>
        obtain ⟨rfl, hes⟩ := calm_poll.mp hcalm
        obtain ⟨rest, hleaves, hrest⟩ := ih hes hc
        exact ⟨rest, .poll false hleaves, hrest⟩
  | log _ ih =>
    cases es with
    | nil => cases hc
    | cons e es =>
      cases hc with
      | log hc =>
        obtain ⟨rest, hleaves, hrest⟩ := ih hcalm.of_cons hc
        exact ⟨rest, .log hleaves, hrest⟩

end AfterReads
end

theorem heeds_done (n : Nat) (a : α) : (Probe.done a).Heeds n :=
  ⟨⟨.done trivial, .done trivial⟩, .done a⟩

theorem heeds_report (n : Nat) (level : Log.Level) (text : String) (a : α) :
    ((report level text).bind fun _ => .done a).Heeds n :=
  ⟨⟨.log (.done trivial), .log (.done trivial)⟩, .log (.done a)⟩

/-- If a run finds the flag unset and leaves it set, it was set during a request, and up to there
the run is as it is when nobody sets the flag. -/
theorem cancelled_course_of_run {t : Target σ} (ht : t.Latching)
    (hear : ∀ e s, t.cancelled (t.hear e s) = t.cancelled s) (p : Probe α) (s : σ)
    (hstart : t.cancelled s = false) (hend : t.cancelled (p.run t s).2 = true) :
    ∃ es a n reply later later', Calm es ∧ .poll false ∉ later ∧
      p.Course (es ++ .read a n reply :: later) (p.run t s).1 ∧
      p.Course (es ++ .read a n reply :: later') (p.run t.uncancelled s).1 := by
  induction p generalizing s with
  | done | fault =>
    rw [run, hstart] at hend
    cases hend
  | read a n k ih =>
    cases hread : t.cancelled (t.read a n s).2 with
    | true =>
      obtain ⟨later, hc, -, hset⟩ :=
        latched_course_of_run ht (k (t.read a n s).1) (t.read a n s).2
      obtain ⟨later', hc'⟩ :=
        course_of_run t.uncancelled (k (t.read a n s).1) (t.read a n s).2
      exact ⟨[], a, n, _, later, later', List.not_mem_nil, hset hread, .read _ hc, .read _ hc'⟩
    | false =>
      obtain ⟨es, a', n', reply, later, later', hcalm, hset, hc, hc'⟩ := ih _ _ hread hend
      exact ⟨.read a n (t.read a n s).1 :: es, a', n', reply, later, later',
        hcalm.cons (by simp), hset, .read _ hc, .read _ hc'⟩
  | poll k ih =>
    obtain ⟨es, a', n', reply, later, later', hcalm, hset, hc, hc'⟩ := ih _ s hstart hend
    rw [hstart] at hc'
    exact ⟨.poll false :: es, a', n', reply, later, later', calm_poll.mpr ⟨rfl, hcalm⟩, hset,
      .poll false (hstart ▸ hc), .poll false hc'⟩
  | log e k ih =>
    obtain ⟨es, a', n', reply, later, later', hcalm, hset, hc, hc'⟩ :=
      ih (t.hear e s) ((hear e s).trans hstart) hend
    exact ⟨.log e :: es, a', n', reply, later, later', hcalm.cons (by simp), hset, .log hc,
      .log hc'⟩

end Probe
end StackPeek
