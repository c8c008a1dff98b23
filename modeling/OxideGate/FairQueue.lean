import Mathlib.Algebra.Order.Floor.Semiring
import Mathlib.Algebra.Order.Field.Rat
import Mathlib.Data.List.Rotate
import Mathlib.Data.Rat.Floor
import OxideGate.Lib.Tally

/-!
# Deficit round robin across tenants (`fairqueue.rs`)

`FairQueue` follows the source field by field. The `HashMap` is a partial function from keys,
the `VecDeque`s are lists with the front at the head, and weights and deficits are exact
rationals instead of `f64`.

The body of `pop`'s loop is `visit`: it either returns from `pop` or passes to the next
tenant. `pop` repeats it. The loop has no counter in the source; here it gets as many rounds
as the active tenants' missing credits add up to, and `FairQueueTheorems` proves that a queue
that `push` and `pop` built never uses them up.
-/

namespace OxideGate

/-- `TenantQueue`: one tenant's FIFO, its share and its unspent credit. -/
structure TenantQueue (T : Type) where
  items : List T
  weight : ℚ
  deficit : ℚ
deriving DecidableEq, Repr

/-- `FairQueue`. -/
structure FairQueue (K T : Type) where
  queues : K → Option (TenantQueue T)
  /-- Tenants with something queued, in rotation order. Front = whose turn. -/
  active : List K
  /-- Whether the tenant at the front has already received this turn's credit. -/
  turnStarted : Bool
  len : ℕ
  capacity : ℕ

/-- How one round of `pop`'s loop ends: with `return item`, or in the next round. -/
inductive Visit (K T : Type) where
  | ret (item : Option T) (q : FairQueue K T)
  | next (q : FairQueue K T)

namespace FairQueue

variable {K T : Type}

def new (capacity : ℕ) : FairQueue K T where
  queues := fun _ => none
  active := []
  turnStarted := false
  len := 0
  capacity := capacity

def isEmpty (q : FairQueue K T) : Bool := q.len == 0

/-- The items waiting under a key; no entry in the map is no item. -/
def backlog (q : FairQueue K T) (key : K) : List T :=
  match q.queues key with
  | some tq => tq.items
  | none => []

/-- A key's unspent credit; a tenant without an entry has none. -/
def deficit (q : FairQueue K T) (key : K) : ℚ :=
  match q.queues key with
  | some tq => tq.deficit
  | none => 0

/-- Everything queued, tenant by tenant in rotation order. -/
def contents (q : FairQueue K T) : List T := q.active.flatMap q.backlog

variable [DecidableEq K]

/-- `push`: enqueue for `key`, or hand the item back (`Err`) when the queue is full. -/
def push (q : FairQueue K T) (key : K) (weight : ℚ) (item : T) :
    Except T Unit × FairQueue K T :=
  if q.capacity ≤ q.len then (.error item, q)
  else
    match q.queues key with
    | some tq =>
      (.ok (), { q with
        len := q.len + 1
        queues := Function.update q.queues key (some { tq with items := tq.items ++ [item] }) })
    | none =>
      -- a new (or newly active) tenant joins at the back with no credit carried over
      (.ok (), { q with
        len := q.len + 1
        queues := Function.update q.queues key (some ⟨[item], weight, 0⟩)
        active := q.active ++ [key] })

/-- The deficit the front tenant has in this round: this turn's credit comes only once. -/
def credited (q : FairQueue K T) (tq : TenantQueue T) : ℚ :=
  if q.turnStarted then tq.deficit else tq.deficit + tq.weight

/-- One round of `pop`'s loop. -/
def visit (q : FairQueue K T) : Visit K T :=
  match q.active with
  | [] => .ret none q
  | key :: rest =>
    match q.queues key with
    | none => .ret none q
    | some tq =>
      let d := q.credited tq
      if 1 ≤ d then
        let item := tq.items.head?
        let items := tq.items.tail
        if items = [] then
          -- an idle tenant keeps no credit
          .ret item { q with
            queues := Function.update q.queues key none
            active := rest
            turnStarted := false
            len := q.len - 1 }
        else if d - 1 < 1 then
          .ret item { q with
            queues := Function.update q.queues key (some ⟨items, tq.weight, d - 1⟩)
            active := (key :: rest).rotate 1
            turnStarted := false
            len := q.len - 1 }
        else
          .ret item { q with
            queues := Function.update q.queues key (some ⟨items, tq.weight, d - 1⟩)
            turnStarted := true
            len := q.len - 1 }
      else
        -- not enough credit this turn
        .next { q with
          queues := Function.update q.queues key (some ⟨tq.items, tq.weight, d⟩)
          active := (key :: rest).rotate 1
          turnStarted := false }

/-- The loop of `pop`, cut off after `fuel` rounds. -/
def popLoop : ℕ → FairQueue K T → Option (Option T × FairQueue K T)
  | 0, _ => none
  | fuel + 1, q =>
    match q.visit with
    | .ret item q' => some (item, q')
    | .next q' => popLoop fuel q'

/-- The credits a tenant needs before it can be served. -/
def missing (q : FairQueue K T) (key : K) : ℕ :=
  match q.queues key with
  | some tq => ⌈(1 - tq.deficit) / tq.weight⌉₊
  | none => 0

/-- Enough rounds for `pop`: every round but the last gives a tenant a credit it misses. -/
def rounds (q : FairQueue K T) : ℕ := Tally.tally q.missing q.active + 1

/-- `pop`: the next item in deficit-round-robin order. -/
def pop (q : FairQueue K T) : Option T × FairQueue K T :=
  (popLoop q.rounds q).getD (none, q)

end FairQueue
end OxideGate
