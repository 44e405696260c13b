import Mathlib.Data.BitVec
import Mathlib.Data.List.Basic
import Mathlib.Data.Set.Insert
import Mathlib.Data.Set.Subsingleton
import Mathlib.Logic.Function.Basic

/-!
# The tree of names

The names of the players that are online are kept in a tree, in which a name is a path to a break
point. With the beginning of a name, `findOne` goes down as long as there is one way, and finds the
name if it ends there.

* The break points are at the ends of the names that are stored, whatever names have been inserted
  and removed, and what a removal leaves without a break point is gone (`Stores`).
* The beginning of one name is completed to it, and of several names to none. Without any name the
  empty beginning is taken for a name: the root has no children, as a break point may
  (`completes_iff`).
-/

namespace Canary.Utils

abbrev Letter := BitVec 8

/-- A node, or a null pointer. -/
inductive WildcardTreeNode
  | null
  | node (breakpoint : Bool) (children : Letter → WildcardTreeNode)

/-- What `findOne` returns. -/
inductive FindReturn
  | noError | playerWithThisNameIsNotOnline | nameIsTooAmbiguous
  deriving DecidableEq

def letters : List Letter := (List.range (2 ^ 8)).map (BitVec.ofNat 8)

namespace WildcardTreeNode

def isNull : WildcardTreeNode → Bool
  | null => true
  | node _ _ => false

/-- The tree with its root only. -/
def root : WildcardTreeNode := node false fun _ => null

def getChild : WildcardTreeNode → Letter → WildcardTreeNode
  | null, _ => null
  | node _ children, ch => children ch

/-- The letters of the children, in order. -/
def childLetters : WildcardTreeNode → List Letter
  | null => []
  | node _ children => letters.filter fun ch => !(children ch).isNull

def breakpoint : WildcardTreeNode → Bool
  | null => false
  | node b _ => b

/-- The child that `addChild` returns, of the one that there is, if any. -/
def addChild : WildcardTreeNode → Bool → WildcardTreeNode
  | null, breakp => node breakp fun _ => null
  | node b children, breakp => node (b || breakp) children

def insert : List Letter → WildcardTreeNode → WildcardTreeNode
  | [], cur => cur
  | _ :: _, null => null
  | ch :: str, node b children =>
    node b (Function.update children ch
      (if str = [] then addChild (children ch) true
       else insert str (addChild (children ch) false)))

/-- A node on the path, and the letter by which the path goes on. -/
structure Step where
  breakpoint : Bool
  children : Letter → WildcardTreeNode
  ch : Letter

/-- The first loop of `remove`: the node of a name, and the path to it. -/
def descend : List Letter → WildcardTreeNode → List Step → Option (WildcardTreeNode × List Step)
  | [], cur, path => some (cur, path)
  | _ :: _, null, _ => none
  | ch :: str, node b children, path =>
    if (children ch).isNull then none
    else descend str (children ch) (⟨b, children, ch⟩ :: path)

/-- The tree, from a node and the path to it. -/
def attach : WildcardTreeNode → List Step → WildcardTreeNode
  | cur, [] => cur
  | cur, s :: path => attach (node s.breakpoint (Function.update s.children s.ch cur)) path

/-- The second loop of `remove`, up the path. -/
def prune : WildcardTreeNode → List Step → WildcardTreeNode
  | cur, [] => cur
  | cur, s :: path =>
    if cur.childLetters ≠ [] ∨ cur.breakpoint then attach cur (s :: path)
    else prune (node s.breakpoint (Function.update s.children s.ch null)) path

/-- `cur->breakpoint = false` -/
def clear : WildcardTreeNode → WildcardTreeNode
  | null => null
  | node _ children => node false children

def remove (str : List Letter) (t : WildcardTreeNode) : WildcardTreeNode :=
  match descend str t [] with
  | none => t
  | some (cur, path) => prune cur.clear path

/-- The first loop of `findOne`. -/
def follow : List Letter → WildcardTreeNode → WildcardTreeNode
  | [], cur => cur
  | ch :: query, cur => follow query (cur.getChild ch)

/-- The second loop of `findOne`. -/
def complete : WildcardTreeNode → List Letter → FindReturn × List Letter
  | null, result => (.noError, result)
  | node b children, result =>
    match childLetters (node b children) with
    | [] => (.noError, result)
    | [ch] =>
      if b then (.nameIsTooAmbiguous, result) else complete (children ch) (result ++ [ch])
    | _ :: _ :: _ => (.nameIsTooAmbiguous, result)

def findOne (query : List Letter) (t : WildcardTreeNode) (result : List Letter) :
    FindReturn × List Letter :=
  if (follow query t).isNull then (.playerWithThisNameIsNotOnline, result)
  else complete (follow query t) query

/-! ## Words -/

/-- The path leads to a break point. -/
def has : WildcardTreeNode → List Letter → Bool
  | null, _ => false
  | node b _, [] => b
  | node _ children, ch :: w => (children ch).has w

/-- Every leaf is a break point, and all below. -/
def Live : WildcardTreeNode → Prop
  | null => True
  | node b children =>
    ((∀ ch, children ch = null) → b = true) ∧ ∀ ch, (children ch).Live

variable {t u : WildcardTreeNode} {b : Bool} {children : Letter → WildcardTreeNode} {ch : Letter}
  {str w : List Letter} {path : List Step}

theorem isNull_iff : t.isNull = true ↔ t = null := by
  cases t with
  | null => exact iff_of_true rfl rfl
  | node b children => exact iff_of_false Bool.false_ne_true nofun

theorem mem_letters (ch : Letter) : ch ∈ letters :=
  List.mem_map.2 ⟨ch.toNat, List.mem_range.2 ch.isLt, by rw [BitVec.ofNat_toNat, BitVec.setWidth_eq]⟩

theorem nodup_letters : letters.Nodup := by
  refine List.Nodup.map_on (fun m hm n hn h => ?_) List.nodup_range
  have hnat := congrArg BitVec.toNat h
  rw [BitVec.toNat_ofNat, BitVec.toNat_ofNat, Nat.mod_eq_of_lt (List.mem_range.1 hm),
    Nat.mod_eq_of_lt (List.mem_range.1 hn)] at hnat
  exact hnat

theorem mem_childLetters : ch ∈ childLetters (node b children) ↔ children ch ≠ null := by
  rw [childLetters, List.mem_filter, and_iff_right (mem_letters ch), Bool.not_eq_true',
    ← Bool.not_eq_true, isNull_iff]

theorem childLetters_eq_nil : childLetters (node b children) = [] ↔ ∀ ch, children ch = null := by
  rw [List.eq_nil_iff_forall_not_mem]
  exact forall_congr' fun ch => by rw [mem_childLetters, not_not]

theorem has_null (w : List Letter) : null.has w = false := by
  rw [has]

theorem has_update (u : WildcardTreeNode) (w : List Letter) :
    (node b (Function.update children ch u)).has w =
      match w with
      | [] => b
      | c :: w => if c = ch then u.has w else (children c).has w := by
  rcases w with _ | ⟨c, w⟩
  · rfl
  · rw [has]
    dsimp only
    split_ifs with hc
    · rw [hc, Function.update_self]
    · rw [Function.update_of_ne hc]

/-- A live node is on the way to a break point. -/
theorem Live.exists_has (ht : t.Live) (hnull : t ≠ null) : ∃ w, t.has w = true := by
  induction t with
  | null => exact absurd rfl hnull
  | node b children ih =>
    by_cases hleaf : ∀ ch, children ch = null
    · exact ⟨[], ht.1 hleaf⟩
    · obtain ⟨ch, hch⟩ := not_forall.1 hleaf
      obtain ⟨w, hw⟩ := ih ch (ht.2 ch) hch
      exact ⟨ch :: w, hw⟩

/-! ## Insertion -/

theorem addChild_ne_null (breakp : Bool) : t.addChild breakp ≠ null := by
  cases t <;> exact nofun

theorem has_addChild (breakp : Bool) :
    (t.addChild breakp).has w = true ↔ t.has w = true ∨ (breakp = true ∧ w = []) := by
  cases t <;> rcases w with _ | ⟨c, w⟩ <;> simp [addChild, has]

/-- An insertion adds the name. -/
theorem has_insert (ht : t ≠ null) (hstr : str ≠ []) :
    (insert str t).has w = true ↔ t.has w = true ∨ w = str := by
  induction str generalizing t w with
  | nil => exact absurd rfl hstr
  | cons ch str ih =>
    cases t with
    | null => exact absurd rfl ht
    | node b children =>
      rw [insert, has_update]
      rcases w with _ | ⟨c, w⟩
      · rw [has]
        simp
      · rw [has]
        dsimp only
        by_cases hc : c = ch
        · subst hc
          rw [if_pos rfl, List.cons.injEq, and_iff_right rfl]
          split_ifs with hnil
          · rw [has_addChild, hnil, and_iff_right rfl]
          · rw [ih (addChild_ne_null false) hnil, has_addChild]
            simp
        · rw [if_neg hc, List.cons.injEq]
          simp [hc]

theorem breakpoint_insert (str : List Letter) (t : WildcardTreeNode) :
    (insert str t).breakpoint = t.breakpoint := by
  rcases str with _ | ⟨ch, str⟩
  · rfl
  · cases t <;> rfl

/-- All below the node is live. -/
def Below (t : WildcardTreeNode) : Prop := ∀ ch, (t.getChild ch).Live

theorem Live.below (ht : t.Live) : t.Below := by
  cases t with
  | null => exact fun _ => ht
  | node b children => exact ht.2

theorem below_update {u : WildcardTreeNode} (ht : (node b children).Below) (hu : u.Live) :
    (node b (Function.update children ch u)).Below := by
  intro c
  rw [getChild]
  by_cases hc : c = ch
  · rw [hc, Function.update_self]
    exact hu
  · rw [Function.update_of_ne hc]
    exact ht c

theorem live_addChild (ht : t.Live) : (t.addChild true).Live := by
  cases t with
  | null => exact ⟨fun _ => rfl, fun _ => trivial⟩
  | node b children =>
    rw [addChild, Bool.or_true]
    exact ⟨fun _ => rfl, ht.2⟩

theorem below_addChild (ht : t.Live) (breakp : Bool) : (t.addChild breakp).Below := by
  cases t with
  | null => exact fun _ => trivial
  | node b children => exact ht.2

theorem live_insert (ht : t ≠ null) (hstr : str ≠ []) (hbelow : t.Below) :
    (insert str t).Live := by
  induction str generalizing t with
  | nil => exact absurd rfl hstr
  | cons ch str ih =>
    cases t with
    | null => exact absurd rfl ht
    | node b children =>
      rw [insert]
      have hchild : (if str = [] then addChild (children ch) true
          else insert str (addChild (children ch) false)).Live := by
        split_ifs with hnil
        · exact live_addChild (hbelow ch)
        · exact ih (addChild_ne_null false) hnil (below_addChild (hbelow ch) false)
      refine ⟨fun hleaf => ?_, below_update hbelow hchild⟩
      -- There is a child, the one on the path.
      have hnull := hleaf ch
      rw [Function.update_self] at hnull
      split_ifs at hnull with hnil
      · exact absurd hnull (addChild_ne_null true)
      · obtain ⟨c, str, rfl⟩ := List.exists_cons_of_ne_nil hnil
        cases hc : children ch <;> rw [hc, addChild, insert] at hnull <;> nomatch hnull

/-! ## Removal -/

/-- The node has no children and is no break point. -/
def isDead (t : WildcardTreeNode) : Bool := t.childLetters = [] ∧ t.breakpoint = false

/-- The tree without the name, by recursion. -/
def removed : List Letter → WildcardTreeNode → WildcardTreeNode
  | [], cur => cur.clear
  | _ :: _, null => null
  | ch :: str, node b children =>
    node b (Function.update children ch
      (if (removed str (children ch)).isDead then null else removed str (children ch)))

/-- A child that is not dead makes a node so. -/
theorem isDead_update (hu : u.isDead = false) :
    (node b (Function.update children ch u)).isDead = false := by
  rw [isDead, decide_eq_false_iff_not, childLetters_eq_nil]
  rintro ⟨hleaf, -⟩
  have hnull := hleaf ch
  rw [Function.update_self] at hnull
  rw [hnull] at hu
  nomatch hu

theorem prune_of_not_dead (ht : t.isDead = false) (path : List Step) :
    prune t path = attach t path := by
  rcases path with _ | ⟨s, path⟩
  · rfl
  · rw [prune, if_pos]
    rw [isDead, decide_eq_false_iff_not, not_and_or] at ht
    exact ht.imp_right Bool.eq_true_of_not_eq_false

theorem prune_of_dead (ht : t.isDead = true) (s : Step) (path : List Step) :
    prune t (s :: path) =
      prune (node s.breakpoint (Function.update s.children s.ch null)) path := by
  rw [isDead, decide_eq_true_eq] at ht
  rw [prune, if_neg]
  rintro (hchildren | hb)
  · exact hchildren ht.1
  · rw [ht.2] at hb
    nomatch hb

/-- The loop up the path does what the recursion does. -/
theorem prune_descend {cur : WildcardTreeNode} {path' : List Step}
    (h : descend str t path = some (cur, path')) :
    prune cur.clear path' = prune (removed str t) path := by
  induction str generalizing t path with
  | nil =>
    obtain ⟨rfl, rfl⟩ := Prod.mk.inj (Option.some.inj h)
    rfl
  | cons ch str ih =>
    cases t with
    | null => nomatch h
    | node b children =>
      rw [descend] at h
      split_ifs at h with hnull
      rw [ih h, removed]
      by_cases hdead : (removed str (children ch)).isDead = true
      · rw [prune_of_dead hdead, if_pos hdead]
      · rw [if_neg hdead, prune_of_not_dead (Bool.eq_false_of_not_eq_true hdead), attach,
          prune_of_not_dead (isDead_update (Bool.eq_false_of_not_eq_true hdead))]

theorem follow_null (str : List Letter) : follow str null = null := by
  induction str with
  | nil => rfl
  | cons ch str ih => exact ih

theorem descend_eq_none (ht : t ≠ null) : descend str t path = none ↔ follow str t = null := by
  induction str generalizing t path with
  | nil => exact iff_of_false nofun ht
  | cons ch str ih =>
    cases t with
    | null => exact absurd rfl ht
    | node b children =>
      rw [descend, follow, getChild]
      split_ifs with hnull
      · rw [isNull_iff.1 hnull]
        exact iff_of_true rfl (follow_null str)
      · exact ih fun h => hnull (isNull_iff.2 h)

theorem remove_of_null (ht : t ≠ null) (h : follow str t = null) : remove str t = t := by
  rw [remove, (descend_eq_none ht).2 h]

theorem remove_of_ne_null (ht : t ≠ null) (h : follow str t ≠ null) :
    remove str t = removed str t := by
  rw [remove]
  rcases hd : descend str t [] with _ | ⟨cur, path⟩
  · exact absurd ((descend_eq_none ht).1 hd) h
  · exact prune_descend hd

theorem has_follow (str w : List Letter) (t : WildcardTreeNode) :
    (follow str t).has w = t.has (str ++ w) := by
  induction str generalizing t with
  | nil => rfl
  | cons ch str ih =>
    rw [follow, ih]
    cases t with
    | null => rw [getChild, has_null, has_null]
    | node b children => rfl

theorem has_of_isDead (h : t.isDead = true) (w : List Letter) : t.has w = false := by
  cases t with
  | null => exact has_null w
  | node b children =>
    rw [isDead, decide_eq_true_eq, childLetters_eq_nil] at h
    rcases w with _ | ⟨c, w⟩
    · exact h.2
    · rw [has, h.1 c, has_null]

/-- A removal takes out the name. -/
theorem has_removed (h : follow str t ≠ null) :
    (removed str t).has w = true ↔ t.has w = true ∧ w ≠ str := by
  induction str generalizing t w with
  | nil =>
    cases t with
    | null => exact absurd rfl h
    | node b children =>
      rcases w with _ | ⟨c, w⟩
      · rw [removed, clear, has]
        simp
      · rw [removed, clear, has, has]
        simp
  | cons ch str ih =>
    cases t with
    | null => exact absurd (follow_null _) h
    | node b children =>
      have hchild : ∀ w, (if (removed str (children ch)).isDead then null
          else removed str (children ch)).has w = (removed str (children ch)).has w := by
        intro w
        split_ifs with hdead
        · rw [has_null, has_of_isDead hdead]
        · rfl
      rw [removed, has_update]
      rcases w with _ | ⟨c, w⟩
      · rw [has]
        simp
      · rw [has]
        dsimp only
        by_cases hc : c = ch
        · subst hc
          have hfollow : follow str (children c) ≠ null := h
          rw [if_pos rfl, hchild, ih hfollow, ne_eq, ne_eq, List.cons.injEq, and_iff_right rfl]
        · rw [if_neg hc, and_iff_left]
          exact fun he => hc (List.cons.inj he).1

theorem breakpoint_removed (hstr : str ≠ []) : (removed str t).breakpoint = t.breakpoint := by
  rcases str with _ | ⟨ch, str⟩
  · exact absurd rfl hstr
  · cases t <;> rfl

theorem below_removed (ht : t.Below) (str : List Letter) : (removed str t).Below := by
  induction str generalizing t with
  | nil => cases t <;> exact ht
  | cons ch str ih =>
    cases t with
    | null => exact ht
    | node b children =>
      rw [removed]
      refine below_update ht ?_
      split_ifs with hdead
      · exact trivial
      · have hbelow := ih (ht ch).below
        rw [getChild] at hbelow
        rw [isDead, decide_eq_true_eq] at hdead
        generalize removed str (children ch) = u at hbelow hdead ⊢
        cases u with
        | null => exact trivial
        | node b' children' =>
          rw [childLetters_eq_nil] at hdead
          exact ⟨fun hleaf => Bool.eq_true_of_not_eq_false fun hb => hdead ⟨hleaf, hb⟩, hbelow⟩

/-! ## Runs -/

/-- A name, which is not empty. -/
abbrev Name := { str : List Letter // str ≠ [] }

/-- The calls that change the tree. -/
inductive Call
  | insert (name : Name)
  | remove (name : Name)

def Call.run (t : WildcardTreeNode) : Call → WildcardTreeNode
  | .insert name => t.insert name
  | .remove name => t.remove name

/-- The set of names that a call leaves. -/
def Call.apply (names : Set (List Letter)) : Call → Set (List Letter)
  | .insert name => Insert.insert name.1 names
  | .remove name => names \ {name.1}

/-- The tree after the calls, on a tree with its root only. -/
def after (calls : List Call) : WildcardTreeNode := calls.foldl Call.run root

/-- The names that have been inserted, and not removed since. -/
def stored (calls : List Call) : Set (List Letter) := calls.foldl Call.apply ∅

/-- The tree has the names, and no dead branches. -/
structure Stores (t : WildcardTreeNode) (names : Set (List Letter)) : Prop where
  ne_null : t ≠ null
  breakpoint : t.breakpoint = false
  below : t.Below
  has_iff : ∀ w, t.has w = true ↔ w ∈ names

theorem stores_root : root.Stores ∅ := by
  refine ⟨nofun, rfl, fun _ => trivial, fun w => iff_of_false ?_ (Set.notMem_empty w)⟩
  cases w <;> exact Bool.false_ne_true

theorem Stores.run {names : Set (List Letter)} (h : t.Stores names) (call : Call) :
    (call.run t).Stores (call.apply names) := by
  obtain ⟨ht, hb, hbelow, hhas⟩ := h
  cases call with
  | insert name =>
    have hlive := live_insert ht name.2 hbelow
    refine ⟨fun hnull => ?_, ?_, hlive.below, fun w => ?_⟩
    · obtain ⟨ch, str, hname⟩ := List.exists_cons_of_ne_nil name.2
      rw [Call.run, hname] at hnull
      cases t with
      | null => exact ht rfl
      | node b children => nomatch hnull
    · rw [Call.run, breakpoint_insert, hb]
    · rw [Call.run, has_insert ht name.2, hhas, Call.apply, Set.mem_insert_iff, or_comm]
  | remove name =>
    rw [Call.run, Call.apply]
    by_cases hnull : follow name.1 t = null
    · -- There is no such path, hence no such name.
      rw [remove_of_null ht hnull]
      refine ⟨ht, hb, hbelow, fun w => ?_⟩
      rw [hhas, Set.mem_sdiff, Set.mem_singleton_iff, iff_self_and]
      rintro hw rfl
      rw [← hhas, ← List.append_nil name.1, ← has_follow, hnull] at hw
      nomatch hw
    · rw [remove_of_ne_null ht hnull]
      refine ⟨?_, ?_, below_removed hbelow name.1, fun w => ?_⟩
      · obtain ⟨ch, str, hname⟩ := List.exists_cons_of_ne_nil name.2
        rw [hname]
        cases t with
        | null => exact absurd rfl ht
        | node b children => exact nofun
      · rw [breakpoint_removed name.2, hb]
      · rw [has_removed hnull, hhas, Set.mem_sdiff, Set.mem_singleton_iff]

theorem stores_after (calls : List Call) : (after calls).Stores (stored calls) := by
  have hrun : ∀ {t names}, Stores t names →
      (calls.foldl Call.run t).Stores (calls.foldl Call.apply names) := by
    induction calls with
    | nil => exact fun h => h
    | cons call calls ih => exact fun h => ih (h.run call)
  exact hrun stores_root

/-! ## Completion -/

/-- The names that begin so. -/
def completions (names : Set (List Letter)) (query : List Letter) : Set (List Letter) :=
  { name ∈ names | query <+: name }

/-- One completion is found, and no other answer is a name. -/
structure Completes (names : Set (List Letter)) (query : List Letter)
    (answer : FindReturn × List Letter) : Prop where
  single : ∀ name, completions names query = {name} → answer = (.noError, name)
  none : completions names query = ∅ → answer.1 = .playerWithThisNameIsNotOnline
  several : (completions names query).Nontrivial → answer.1 = .nameIsTooAmbiguous

/-- What is below a node is one word, or there are several. -/
theorem complete_spec (ht : t.Live) (hnull : t ≠ null) (result : List Letter) :
    (∃ w, (∀ v, t.has v = true ↔ v = w) ∧ complete t result = (.noError, result ++ w)) ∨
      (∃ w v, w ≠ v ∧ t.has w = true ∧ t.has v = true) ∧
        (complete t result).1 = .nameIsTooAmbiguous := by
  induction t generalizing result with
  | null => exact absurd rfl hnull
  | node b children ih =>
    rw [complete]
    rcases hletters : childLetters (node b children) with _ | ⟨ch, _ | ⟨ch', rest⟩⟩
    · -- A leaf, which is a break point.
      have hleaf := childLetters_eq_nil.1 hletters
      refine .inl ⟨[], fun v => ?_, by rw [List.append_nil]⟩
      rcases v with _ | ⟨c, v⟩
      · exact iff_of_true (ht.1 hleaf) rfl
      · rw [has, hleaf c, has_null]
        exact iff_of_false Bool.false_ne_true nofun
    · have hch : children ch ≠ null := mem_childLetters.1 (hletters ▸ List.mem_singleton_self ch)
      have hother : ∀ c, c ≠ ch → children c = null := by
        intro c hc
        by_contra hne
        have hmem : c ∈ childLetters (node b children) := mem_childLetters.2 hne
        rw [hletters, List.mem_singleton] at hmem
        exact hc hmem
      cases b with
      | true =>
        obtain ⟨w, hw⟩ := (ht.2 ch).exists_has hch
        exact .inr ⟨⟨[], ch :: w, nofun, rfl, hw⟩, rfl⟩
      | false =>
        dsimp only
        rw [if_neg Bool.false_ne_true]
        rcases ih ch (ht.2 ch) hch (result ++ [ch]) with ⟨w, hw, hfound⟩ | ⟨hwords, hfound⟩
        · refine .inl ⟨ch :: w, fun v => ?_, by rw [hfound, List.append_assoc]; rfl⟩
          rcases v with _ | ⟨c, v⟩
          · exact iff_of_false Bool.false_ne_true nofun
          · rw [has, List.cons.injEq]
            by_cases hc : c = ch
            · rw [hc, hw, and_iff_right rfl]
            · rw [hother c hc, has_null]
              exact iff_of_false Bool.false_ne_true fun h => hc h.1
        · obtain ⟨w, v, hne, hw, hv⟩ := hwords
          exact .inr ⟨⟨ch :: w, ch :: v, fun he => hne (List.cons.inj he).2, hw, hv⟩, hfound⟩
    · -- Two ways lead to words that differ in the first letter.
      have hnodup := (nodup_letters.filter fun c => !(children c).isNull)
      rw [← childLetters, hletters, List.nodup_cons] at hnodup
      have hch : children ch ≠ null := mem_childLetters.1 (hletters ▸ List.mem_cons_self)
      have hch' : children ch' ≠ null :=
        mem_childLetters.1 (hletters ▸ List.mem_cons_of_mem _ List.mem_cons_self)
      obtain ⟨w, hw⟩ := (ht.2 ch).exists_has hch
      obtain ⟨v, hv⟩ := (ht.2 ch').exists_has hch'
      refine .inr ⟨⟨ch :: w, ch' :: v, fun he => ?_, hw, hv⟩, rfl⟩
      exact hnodup.1 ((List.cons.inj he).1 ▸ List.mem_cons_self)

theorem live_follow (ht : t.Below) (hstr : str ≠ []) : (follow str t).Live := by
  induction str generalizing t with
  | nil => exact absurd rfl hstr
  | cons ch str ih =>
    rw [follow]
    by_cases hnil : str = []
    · rw [hnil]
      exact ht ch
    · exact ih (ht ch).below hnil

theorem Stores.mem_completions {names : Set (List Letter)} (h : t.Stores names)
    {query name : List Letter} : name ∈ completions names query ↔
      ∃ w, (follow query t).has w = true ∧ query ++ w = name := by
  rw [completions, Set.mem_ofPred_eq, ← h.has_iff]
  constructor
  · rintro ⟨hname, w, rfl⟩
    exact ⟨w, (congrArg (· = true) (has_follow query w t)).mpr hname, rfl⟩
  · rintro ⟨w, hw, rfl⟩
    rw [has_follow] at hw
    exact ⟨hw, List.prefix_append query w⟩

/-- A name is completed from a live node. -/
theorem Stores.completes {names : Set (List Letter)} (h : t.Stores names) {query : List Letter}
    (hlive : (follow query t).Live) (result : List Letter) :
    Completes names query (t.findOne query result) := by
  rw [findOne]
  split_ifs with hnull
  · have hempty : completions names query = ∅ := by
      refine Set.eq_empty_of_forall_notMem fun name hname => ?_
      obtain ⟨w, hw, -⟩ := h.mem_completions.1 hname
      rw [isNull_iff.1 hnull, has_null] at hw
      nomatch hw
    refine ⟨fun name hone => ?_, fun _ => rfl, fun hseveral => ?_⟩
    · rw [hempty] at hone
      exact absurd hone.symm (Set.singleton_ne_empty name)
    · rw [hempty] at hseveral
      exact absurd hseveral Set.not_nontrivial_empty
  · rcases complete_spec hlive (fun he => hnull (isNull_iff.2 he)) query with
      ⟨w, hw, hfound⟩ | ⟨⟨w, v, hne, hw, hv⟩, hfound⟩
    · have hone : completions names query = {query ++ w} := by
        ext name
        rw [h.mem_completions, Set.mem_singleton_iff]
        constructor
        · rintro ⟨v, hv, rfl⟩
          rw [(hw v).1 hv]
        · rintro rfl
          exact ⟨w, (hw w).2 rfl, rfl⟩
      rw [hfound]
      refine ⟨fun name hname => ?_, fun hempty => ?_, fun hseveral => ?_⟩
      · rw [hone, Set.singleton_eq_singleton_iff] at hname
        rw [hname]
      · rw [hone] at hempty
        exact absurd hempty (Set.singleton_ne_empty _)
      · rw [hone] at hseveral
        exact absurd hseveral Set.not_nontrivial_singleton
    -- The walk stopped where two names part.
    · have hseveral : (completions names query).Nontrivial :=
        ⟨query ++ w, h.mem_completions.2 ⟨w, hw, rfl⟩, query ++ v, h.mem_completions.2 ⟨v, hv, rfl⟩,
          fun he => hne (List.append_cancel_left he)⟩
      refine ⟨fun name hname => ?_, fun hempty => ?_, fun _ => hfound⟩
      · rw [hname] at hseveral
        exact absurd hseveral Set.not_nontrivial_singleton
      · exact absurd hempty hseveral.nonempty.ne_empty

theorem Stores.finds_iff {names : Set (List Letter)} (h : t.Stores names)
    (query result : List Letter) :
    Completes names query (t.findOne query result) ↔ query ≠ [] ∨ names.Nonempty := by
  have hnull := h.ne_null
  have hroot := h.breakpoint
  have hbelow := h.below
  constructor
  · intro hcompletes
    rw [or_iff_not_imp_left, not_not]
    rintro rfl
    by_contra hnames
    rw [Set.not_nonempty_iff_eq_empty] at hnames
    have hempty : completions names [] = ∅ := by
      rw [hnames]
      exact Set.eq_empty_of_forall_notMem fun name hname => hname.1
    have hanswer := hcompletes.none hempty
    cases t with
    | null => exact hnull rfl
    | node b children =>
      -- Without names there are no children.
      have hleaf : ∀ ch, children ch = null := by
        intro ch
        by_contra hch
        obtain ⟨w, hw⟩ := (hbelow ch).exists_has hch
        have hmem := (h.has_iff (ch :: w)).1 hw
        rw [hnames] at hmem
        exact hmem
      rw [findOne, follow, if_neg nofun, complete, childLetters_eq_nil.2 hleaf] at hanswer
      nomatch hanswer
  · intro hcond
    refine h.completes ?_ result
    by_cases hquery : query = []
    · obtain ⟨name, hname⟩ := hcond.resolve_left (not_not.2 hquery)
      have hhas := (h.has_iff name).2 hname
      rw [hquery, follow]
      cases t with
      | null => exact absurd rfl hnull
      | node b children =>
        refine ⟨fun hleaf => ?_, hbelow⟩
        rcases name with _ | ⟨ch, w⟩
        · exact hhas
        · rw [has, hleaf ch, has_null] at hhas
          nomatch hhas
    · exact live_follow hbelow hquery

/-- Every leaf but the root is a break point. -/
def NoDeadBranches (t : WildcardTreeNode) : Prop :=
  ∀ path, path ≠ [] → ∀ b children, follow path t = node b children →
    (∀ ch, children ch = null) → b = true

/-- After any calls, the break points are at the ends of the names that are stored, there are no
    dead branches, and each beginning of a name is completed, unless it is empty and there are no
    names. -/
theorem completes_iff (calls : List Call) (query result : List Letter) :
    (∀ w, (after calls).has w = true ↔ w ∈ stored calls) ∧ (after calls).NoDeadBranches ∧
      (Completes (stored calls) query ((after calls).findOne query result) ↔
        query ≠ [] ∨ (stored calls).Nonempty) := by
  have h := stores_after calls
  refine ⟨h.has_iff, fun path hpath b children hnode hleaf => ?_, h.finds_iff query result⟩
  have hlive := live_follow h.below hpath
  rw [hnode] at hlive
  exact hlive.1 hleaf

/-- Without names, the empty query finds an empty name. -/
theorem empty_completed :
    root.findOne [] [] = (.noError, []) ∧ ¬ Completes (stored []) [] ((after []).findOne [] []) := by
  have hfind : root.findOne [] [] = (.noError, []) := by decide +kernel
  refine ⟨hfind, fun hcompletes => ?_⟩
  have hanswer := hcompletes.none (Set.eq_empty_of_forall_notMem fun name hname => hname.1)
  rw [after, List.foldl_nil, hfind] at hanswer
  nomatch hanswer

end WildcardTreeNode

end Canary.Utils
