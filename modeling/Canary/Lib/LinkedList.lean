import Mathlib.Data.List.Perm.Basic
import Mathlib.Data.List.Nodup

/-!
# Linked lists with stable iterators

A doubly linked list whose iterators stay valid while nodes around them move: a
list of nodes, each with the address an iterator to it holds. Splicing moves the
node an iterator designates to an end of the list, and changes neither the
addresses nor the values: the list is permuted (`spliceFront_perm`,
`spliceBack_perm`), provided that the addresses are distinct.
-/

namespace LinkedList

open List

variable {α : Type*}

/-- A node: its address, and the value it holds. -/
structure Node (α : Type*) where
  /-- The address, which an iterator to the node holds. -/
  addr : ℕ
  /-- The value. -/
  val : α
  deriving DecidableEq, Repr

/-- The addresses of the nodes. -/
def addrs (l : List (Node α)) : List ℕ := l.map Node.addr

/-- The values of the nodes. -/
def vals (l : List (Node α)) : List α := l.map Node.val

/-- The node the iterator `a` designates. -/
def find (l : List (Node α)) (a : ℕ) : Option (Node α) := l.find? fun n => n.addr == a

/-- Move the node at `a` to the front. -/
def spliceFront (l : List (Node α)) (a : ℕ) : List (Node α) :=
  match find l a with
  | some n => n :: l.filter fun m => m.addr != a
  | none => l

/-- Move the node at `a` to the back. -/
def spliceBack (l : List (Node α)) (a : ℕ) : List (Node α) :=
  match find l a with
  | some n => (l.filter fun m => m.addr != a) ++ [n]
  | none => l

@[simp] theorem addrs_cons (n : Node α) (l : List (Node α)) : addrs (n :: l) = n.addr :: addrs l :=
  rfl

@[simp] theorem vals_cons (n : Node α) (l : List (Node α)) : vals (n :: l) = n.val :: vals l := rfl

theorem mem_addrs {l : List (Node α)} {n : Node α} (h : n ∈ l) : n.addr ∈ addrs l :=
  mem_map_of_mem h

theorem mem_vals {l : List (Node α)} {n : Node α} (h : n ∈ l) : n.val ∈ vals l :=
  mem_map_of_mem h

theorem find_of_mem {l : List (Node α)} (hd : (addrs l).Nodup) {a : ℕ} {x : α}
    (h : ⟨a, x⟩ ∈ l) : find l a = some ⟨a, x⟩ := by
  induction l with
  | nil => simp at h
  | cons n l ih =>
    rw [addrs_cons, nodup_cons] at hd
    rcases mem_cons.1 h with rfl | h
    · simp [find]
    · have hne : n.addr ≠ a := fun he => hd.1 (he ▸ mem_addrs h)
      simpa [find, hne] using ih hd.2 h

/-- With distinct addresses, the node designated comes first, up to the order of the others. -/
theorem perm_cons_filter {l : List (Node α)} (hd : (addrs l).Nodup) {a : ℕ} {n : Node α}
    (hn : find l a = some n) : n :: l.filter (fun m => m.addr != a) ~ l := by
  induction l with
  | nil => simp [find] at hn
  | cons m l ih =>
    rw [addrs_cons, nodup_cons] at hd
    by_cases hm : m.addr = a
    · obtain rfl : m = n := by simpa [find, hm] using hn
      -- No other node is at `a`: the filter keeps the whole tail.
      have htail : l.filter (fun k => k.addr != a) = l :=
        filter_eq_self.2 fun k hk => by
          have : k.addr ≠ a := fun h => hd.1 (hm ▸ h ▸ mem_addrs hk)
          simpa using this
      simp [hm, htail]
    · have hn' : find l a = some n := by simpa [find, hm] using hn
      rw [filter_cons_of_pos (by simpa using hm)]
      exact (Perm.swap _ _ _).trans ((ih hd.2 hn').cons m)

theorem spliceFront_perm {l : List (Node α)} (hd : (addrs l).Nodup) (a : ℕ) :
    spliceFront l a ~ l := by
  unfold spliceFront
  split
  · exact perm_cons_filter hd ‹_›
  · exact Perm.refl l

theorem spliceBack_perm {l : List (Node α)} (hd : (addrs l).Nodup) (a : ℕ) :
    spliceBack l a ~ l := by
  unfold spliceBack
  split
  · exact perm_append_comm.trans (perm_cons_filter hd ‹_›)
  · exact Perm.refl l

end LinkedList
