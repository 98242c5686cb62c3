import Mathlib

/-!
# Point-to-point channels

Every ordered pair of parties has its own first-in first-out channel: the `k`-th receive of `d`
from `s` gets the `k`-th message `s` sent to `d`.  When both sides derive their operations from one
list of messages, the message a party receives is the one that list holds at that place.
-/

namespace VllmEcho.Lib

open List

variable {P α : Type} [DecidableEq P]

structure Message (P α : Type) where
  src : P
  dst : P
  body : α
  deriving DecidableEq

variable (msgs : List (Message P α)) (s : P)

def sendList : List (P × α) :=
  (msgs.filter fun m => m.src = s).map fun m => (m.dst, m.body)

variable (d : P)

def recvList : List (P × α) :=
  (msgs.filter fun m => m.dst = d).map fun m => (m.src, m.body)

def withParty {β : Type} (ops : List (P × β)) (p : P) : List β :=
  (ops.filter fun x => x.1 = p).map Prod.snd

variable (recvs : List (P × α))

def positions : List (P × Nat) :=
  recvs.zipIdx.map fun x => (x.1.1, x.2)

theorem map_fst_filter_zipIdx {β : Type} (p : β → Bool) (xs : List β) (n : Nat) :
    ((xs.zipIdx n).filter fun x => p x.1).map Prod.fst = xs.filter p := by
  induction xs generalizing n with
  | nil => rfl
  | cons x xs ih =>
    rw [zipIdx_cons, filter_cons, filter_cons]
    split
    · rw [map_cons, ih]
    · exact ih _

theorem withParty_positions (s : P) :
    withParty (positions recvs) s = (recvs.zipIdx.filter fun x => x.1.1 = s).map Prod.snd := by
  unfold withParty positions
  rw [filter_map, map_map]
  rfl

theorem withParty_recvList : withParty (recvList msgs d) s = withParty (sendList msgs s) d := by
  unfold withParty sendList recvList
  rw [filter_map, filter_map, map_map, map_map, filter_filter,
    filter_filter]
  congr 1
  apply filter_congr
  intro m _
  show (decide (m.src = s) && decide (m.dst = d)) = (decide (m.dst = d) && decide (m.src = s))
  exact Bool.and_comm _ _

theorem withParty_sendList : withParty (sendList msgs s) d =
      (((recvList msgs d).zipIdx.filter fun x => x.1.1 = s).map fun x => x.1.2) := by
  rw [← withParty_recvList, withParty,
    ← map_fst_filter_zipIdx (fun x : P × α => decide (x.1 = s)) (recvList msgs d) 0, map_map]
  rfl

theorem length_withParty_positions : (withParty (positions (recvList msgs d)) s).length =
      (withParty (sendList msgs s) d).length := by
  rw [withParty_sendList, withParty_positions, length_map, length_map]

theorem zip_withParty :
    (withParty (positions (recvList msgs d)) s).zip (withParty (sendList msgs s) d) =
      ((recvList msgs d).zipIdx.filter fun x => x.1.1 = s).map fun x => (x.2, x.1.2) := by
  rw [withParty_sendList, withParty_positions, zip_map']

end VllmEcho.Lib
