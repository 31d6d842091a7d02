import StackPeek.LineTable.Pairs

/-!
# Location tables

The newest builds keep one entry for every run of up to eight code units. The first byte of
an entry gives its length and its form, and the form says what follows: columns as single
bytes, or varints of six bits a byte, of which only the line step matters here.

`visit` walks over the entries and stops where its caller wants. A table that ends inside an
entry, or holds a varint of more than six bytes, is reported as `Malformed` together with what
was found before.
-/

namespace StackPeek.LineTable

inductive Malformed where
  | truncated
  | varintTooLong
  deriving DecidableEq, Inhabited

def Malformed.message : Malformed → String
  | .truncated => "line table read out of range"
  | .varintTooLong => "line table varint too long"

structure Range where
  start : Nat
  stop : Nat
  line : Int
  deriving DecidableEq, Inhabited

/-- The sum of the six-bit groups of a varint, least significant first, on top of `sum`, and
the bytes behind it. Bit 64 announces a further byte; the group at place `weight` starts at
bit `6 * weight` and none may start above bit 31. -/
def varintFrom (weight sum : Nat) : List UInt8 → Except Malformed (Nat × List UInt8)
  | [] => .error .truncated
  | b :: rest =>
    if 32 ≤ 6 * weight then .error .varintTooLong
    else
      let sum := sum + (b.toNat % 64) <<< (6 * weight)
      if b.toNat / 64 % 2 = 1 then varintFrom (weight + 1) sum rest else .ok (sum, rest)

/-- A varint and the bytes behind it. The value has 32 bits; higher ones are dropped. -/
def varint (bytes : List UInt8) : Except Malformed (UInt32 × List UInt8) := do
  let (sum, rest) ← varintFrom 0 0 bytes
  return (UInt32.ofNat sum, rest)

def signedVarint (bytes : List UInt8) : Except Malformed (Int × List UInt8) := do
  let (value, rest) ← varint bytes
  let magnitude : Int := (value.toNat / 2 : Nat)
  return (if value.toNat % 2 = 1 then -magnitude else magnitude, rest)

def skip : (count : Nat) → List UInt8 → Except Malformed (List UInt8)
  | 0, bytes => .ok bytes
  | _ + 1, [] => .error .truncated
  | count + 1, _ :: rest => skip count rest

def unitsOf (head : UInt8) : Nat := head.toNat % 8 + 1

def formOf (head : UInt8) : Nat := head.toNat / 8 % 16

def lineStep (form : Nat) (bytes : List UInt8) : Except Malformed (Int × List UInt8) :=
  if form = 15 then .ok (0, bytes)
  else if form = 14 then do
    let (delta, rest) ← signedVarint bytes
    let (_, rest) ← varint rest
    let (_, rest) ← varint rest
    let (_, rest) ← varint rest
    return (delta, rest)
  else if form = 13 then signedVarint bytes
  else if 10 ≤ form then do
    let rest ← skip 2 bytes
    return ((form : Int) - 10, rest)
  else do
    let rest ← skip 1 bytes
    return (0, rest)

theorem length_of_varintFrom {weight sum : Nat} {bytes : List UInt8} {v : Nat} {rest : List UInt8}
    (h : varintFrom weight sum bytes = .ok (v, rest)) : rest.length < bytes.length := by
  induction bytes generalizing weight sum with
  | nil => simp [varintFrom] at h
  | cons b tail ih =>
    unfold varintFrom at h
    split at h
    · simp at h
    · simp only at h
      split at h
      · have := ih h
        simp only [List.length_cons]
        omega
      · injection h with h
        injection h with _ h
        subst h
        simp

theorem length_of_varint {bytes : List UInt8} {v : UInt32} {rest : List UInt8}
    (h : varint bytes = .ok (v, rest)) : rest.length < bytes.length := by
  unfold varint at h
  cases hv : varintFrom 0 0 bytes with
  | error e => rw [hv] at h; simp [bind, Except.bind] at h
  | ok p =>
    rw [hv] at h
    injection h with h
    injection h with _ h
    subst h
    exact length_of_varintFrom hv

theorem length_of_signedVarint {bytes : List UInt8} {v : Int} {rest : List UInt8}
    (h : signedVarint bytes = .ok (v, rest)) : rest.length < bytes.length := by
  unfold signedVarint at h
  cases hv : varint bytes with
  | error e => rw [hv] at h; simp [bind, Except.bind] at h
  | ok p =>
    rw [hv] at h
    injection h with h
    injection h with _ h
    subst h
    exact length_of_varint hv

theorem length_of_skip {count : Nat} {bytes rest : List UInt8} (h : skip count bytes = .ok rest) :
    rest.length ≤ bytes.length := by
  induction count generalizing bytes with
  | zero => injection h with h; subst h; exact Nat.le_refl _
  | succ count ih =>
    cases bytes with
    | nil => simp [skip] at h
    | cons b tail =>
      have := ih h
      simp only [List.length_cons]
      omega

theorem length_of_lineStep {form : Nat} {bytes rest : List UInt8} {delta : Int}
    (h : lineStep form bytes = .ok (delta, rest)) : rest.length ≤ bytes.length := by
  unfold lineStep at h
  split at h
  · injection h with h
    injection h with _ h
    subst h
    exact Nat.le_refl _
  · split at h
    · cases h1 : signedVarint bytes with
      | error e => rw [h1] at h; cases h
      | ok p1 =>
        cases h2 : varint p1.2 with
        | error e => rw [h1] at h; simp [bind, Except.bind, h2] at h
        | ok p2 =>
          cases h3 : varint p2.2 with
          | error e => rw [h1] at h; simp [bind, Except.bind, h2, h3] at h
          | ok p3 =>
            cases h4 : varint p3.2 with
            | error e => rw [h1] at h; simp [bind, Except.bind, h2, h3, h4] at h
            | ok p4 =>
              rw [h1] at h
              simp only [bind, Except.bind, h2, h3, h4, pure, Except.pure] at h
              injection h with h
              injection h with _ h
              subst h
              have := length_of_signedVarint h1
              have := length_of_varint h2
              have := length_of_varint h3
              have := length_of_varint h4
              omega
    · split at h
      · exact Nat.le_of_lt (length_of_signedVarint h)
      · split at h
        all_goals
          simp only [bind, Except.bind] at h
          split at h
          · cases h
          · rename_i hs
            injection h with h
            injection h with _ h
            subst h
            exact length_of_skip hs

/-- Walks over the entries from position `start` and line `line` on. The visitor sees the
range of each entry and says whether to go on. -/
def visit {σ : Type} (f : σ → Range → ForInStep σ) (acc : σ) (start : Nat) (line : Int)
    (bytes : List UInt8) : σ × Option Malformed :=
  match bytes with
  | [] => (acc, none)
  | head :: rest =>
    match _h : lineStep (formOf head) rest with
    | .error e => (acc, some e)
    | .ok (delta, behind) =>
      let stop := start + 2 * unitsOf head
      match f acc ⟨start, stop, line + delta⟩ with
      | .done acc => (acc, none)
      | .yield acc => visit f acc stop (line + delta) behind
termination_by bytes.length
decreasing_by
  have := length_of_lineStep _h
  simp only [List.length_cons]
  omega

/-- Keeps the line of the last range that starts at or before `offset`, and stops at the range
that holds it. -/
def search (offset : Nat) (line : Int) (r : Range) : ForInStep Int :=
  if offset < r.start then .done line
  else if offset < r.stop then .done r.line
  else .yield r.line

/-- The line at `offset`, and what was wrong with the part of the table that was read. -/
def entryLine (offset : Nat) (first : Int) (bytes : List UInt8) : Int × Option Malformed :=
  visit (search offset) first 0 first bytes

end StackPeek.LineTable
