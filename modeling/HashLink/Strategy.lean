/-!
# Dividing work

Work on the entries of a list can be shared out: the list is cut into runs of nearly equal length,
one for each worker, every run is worked through in order, and the results are put together in the
order of the list. An item may come to an abrupt end; then so does the whole, with the first item in
list order for which that happened. The division shows nowhere in the result.
-/

namespace HashLink

/-- The number of processor cores of a machine, which has at least one. -/
structure Cores where
  count : Nat
  count_pos : 0 < count
  deriving DecidableEq, Repr

/-- How work on the entries of a list is shared out. -/
inductive Strategy where
  /-- One worker. -/
  | sequential
  /-- The given number of workers, or one for each core of the machine if it is zero. -/
  | parallel (threads : Nat) (cores : Cores)
  deriving DecidableEq, Repr

namespace Strategy

/-- How many workers there are. -/
def workers : Strategy → Nat
  | .sequential => 1
  | .parallel 0 cores => cores.count
  | .parallel threads _ => threads

theorem workers_pos (s : Strategy) : 0 < s.workers := by
  cases s with
  | sequential => exact Nat.one_pos
  | parallel threads cores =>
      cases threads with
      | zero => exact cores.count_pos
      | succ threads => exact Nat.succ_pos threads

variable {π ε α β : Type}

/-- One worker's run: the items in order, numbered from `base`, up to the first abrupt end. -/
def work (f : Nat → α → Except π β) (base : Nat) : List α → Except π (List β)
  | [] => .ok []
  | x :: xs => do
    let y ← f base x
    let ys ← work f (base + 1) xs
    return y :: ys

/-- Cuts a list into runs of `size` items; the last one may be shorter. -/
def chunks (size : Nat) (xs : List α) : List (List α) :=
  if _h : size = 0 ∨ xs = [] then []
  else xs.take size :: chunks size (xs.drop size)
termination_by xs.length
decreasing_by
  have : xs.length ≠ 0 := fun e => _h (.inr (List.eq_nil_of_length_eq_zero e))
  simp only [List.length_drop]
  omega

/-- The results of all runs, up to the first run that came to an abrupt end. -/
def join : List (Except π (List β)) → Except π (List β)
  | [] => .ok []
  | part :: parts => do
    let ys ← part
    let zs ← join parts
    return ys ++ zs

/-- Applies a function to every item, which it gets together with its number. -/
def map (s : Strategy) (f : Nat → α → Except π β) (xs : List α) : Except π (List β) :=
  let workers := min s.workers xs.length
  if workers ≤ 1 then work f 0 xs
  else
    let size := (xs.length + workers - 1) / workers
    join ((chunks size xs).zipIdx.map fun (run, i) => work f (i * size) run)

/-- The values of a list of results, or its first error. -/
def collect : List (Except ε β) → Except ε (List β)
  | [] => .ok []
  | r :: rs => do
    let y ← r
    let ys ← collect rs
    return y :: ys

/-- Applies a function that may also fail to every item, and gives the first error in the order of
the list. -/
def tryMap (s : Strategy) (f : Nat → α → Except π (Except ε β)) (xs : List α) :
    Except π (Except ε (List β)) :=
  (s.map f xs).map collect

/-- The same for a function that may fail but never ends abruptly. -/
def traverse (s : Strategy) (f : Nat → α → Except ε β) (xs : List α) : Except ε (List β) :=
  match s.tryMap (fun i x => (.ok (f i x) : Except Empty (Except ε β))) xs with
  | .ok r => r

end Strategy

end HashLink
