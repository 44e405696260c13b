import Canary.Conditions.StoredReads

/-!
# Room for stored conditions

Whatever bytes are loaded, loading comes to an end, since every condition takes bytes. It writes
outside of an array exactly if some condition of attributes has more than 13 fields of skills, 5 of
stats or 3 of buffs: the fields of a condition are those that are scanned, and a running index is
the number of fields that have been applied (`conditions_stored`).
-/

namespace Canary.Conditions

open FieldStream

/-! ## The fields of one condition -/

/-- The number of fields with a tag. -/
def tally (attr : ConditionAttr) (l : List Entry) : ℕ := l.countP fun e => e.1 = attr.toByte

/-- There is room for the fields of a condition. -/
def Room (kind : Kind) (l : List Entry) : Prop :=
  kind = .attributes → tally .skills l ≤ 13 ∧ tally .stats l ≤ 5 ∧ tally .buffs l ≤ 3

theorem tally_cons (attr attr' : ConditionAttr) (parts : List (List UInt8)) (l : List Entry) :
    tally attr ((attr'.toByte, parts) :: l) = tally attr l + if attr' = attr then 1 else 0 := by
  rw [tally, List.countP_cons]
  by_cases h : attr' = attr
  · rw [h]
    simp
    rfl
  · have hne : attr'.toByte ≠ attr.toByte := fun heq => h (ConditionAttr.toByte_inj heq)
    simp [h, hne]
    rfl

theorem base_apply_isSome {D : Type} {attr : ConditionAttr} {f : Handler (Reading D)}
    (hf : ConditionBase.unserializeProp attr = some f) (parts : List (List UInt8))
    (c : Reading D) : (f.apply parts c).isSome := by
  unfold ConditionBase.unserializeProp at hf
  split at hf <;> cases hf <;> rfl

/-- Only the arrays of attributes run out of room. -/
theorem apply_isSome {kind : Kind} (hk : kind ≠ .attributes) {attr : ConditionAttr}
    {f : Handler (Reading kind.Data)} (hf : kind.unserializeProp attr = some f)
    (parts : List (List UInt8)) (c : Reading kind.Data) : (f.apply parts c).isSome := by
  cases kind with
  | attributes => exact absurd rfl hk
  | damage | speed | outfit | light | regeneration | soul | manaShield =>
    cases attr <;> cases hf <;> rfl
  | feared | invisible | spellCooldown | spellGroupCooldown | generic =>
    exact base_apply_isSome hf parts c

theorem put_eq_none {ι : Type} [DecidableEq ι] {all : List ι} {a : ι → Value} {i : ℕ} {v : Value} :
    put all a i v = none ↔ all.length ≤ i := by
  rw [put, Option.map_eq_none_iff, List.getElem?_eq_none_iff]

/-- What a running index does: it asks for room, or counts the field. -/
theorem running_apply {D ι : Type} [DecidableEq ι] {all : List ι} {array : Reading D → ι → Value}
    {index : Reading D → ℕ} {store : (ι → Value) → ℕ → Reading D → Reading D}
    {f : Handler (Reading D)} (hf : running all array index store = f)
    (parts : List (List UInt8)) (c : Reading D) :
    f.apply parts c = none ∧ all.length ≤ index c ∨
      index c < all.length ∧ ∃ a, f.apply parts c = some (store a (index c + 1) c) := by
  subst hf
  rcases hput : put all (array c) (index c) (value 32 (parts.headD [])) with _ | a
  · exact .inl ⟨congrArg (Option.map fun a => store a (index c + 1) c) hput, put_eq_none.1 hput⟩
  · refine .inr ⟨Nat.lt_of_not_le fun hle => ?_, a,
      congrArg (Option.map fun a => store a (index c + 1) c) hput⟩
    rw [put_eq_none.2 hle] at hput
    cases hput

/-- The running indices are inside of the arrays, with so many fields to come. -/
structure Inside (c : Reading (Kind.Data .attributes)) (skills stats buffs : ℕ) : Prop where
  skill : c.currentSkill + skills ≤ 13
  stat : c.currentStat + stats ≤ 5
  buff : c.currentBuff + buffs ≤ 3

/-- The number of fields of a kind in a field of a tag. -/
def one (attr attr' : ConditionAttr) : ℕ := if attr' = attr then 1 else 0

/-- With other indices, so many fewer or more fields can come. -/
theorem inside_iff {c c' : Reading (Kind.Data .attributes)} {i j k : ℕ}
    (hi : c'.currentSkill = c.currentSkill + i)
    (hj : c'.currentStat = c.currentStat + j) (hk : c'.currentBuff = c.currentBuff + k)
    (skills stats buffs : ℕ) :
    Inside c' skills stats buffs ↔ Inside c (skills + i) (stats + j) (buffs + k) := by
  constructor
  · rintro ⟨hskill, hstat, hbuff⟩
    exact ⟨by omega, by omega, by omega⟩
  · rintro ⟨hskill, hstat, hbuff⟩
    exact ⟨by omega, by omega, by omega⟩

/-- One field of attributes: there is no room for it, or it is counted. -/
theorem attributes_apply {attr : ConditionAttr} {f : Handler (Reading (Kind.Data .attributes))}
    (hf : Kind.unserializeProp .attributes attr = some f) (parts : List (List UInt8))
    {c : Reading (Kind.Data .attributes)} (hc : Inside c 0 0 0) :
    f.apply parts c = none ∧
        ¬Inside c (one .skills attr) (one .stats attr) (one .buffs attr) ∨
      ∃ c', f.apply parts c = some c' ∧ Inside c' 0 0 0 ∧
        ∀ skills stats buffs, Inside c' skills stats buffs ↔ Inside c (skills + one .skills attr)
          (stats + one .stats attr) (buffs + one .buffs attr) := by
  obtain ⟨hskill, hstat, hbuff⟩ := hc
  by_cases hskills : attr = .skills
  · subst hskills
    rcases running_apply (Option.some.inj hf) parts c with ⟨hap, hle⟩ | ⟨hlt, a, hap⟩
    · exact .inl ⟨hap, fun h => Nat.not_lt_of_le hle h.skill⟩
    · exact .inr ⟨_, hap, ⟨hlt, hstat, hbuff⟩, inside_iff rfl rfl rfl⟩
  by_cases hstats : attr = .stats
  · subst hstats
    rcases running_apply (Option.some.inj hf) parts c with ⟨hap, hle⟩ | ⟨hlt, a, hap⟩
    · exact .inl ⟨hap, fun h => Nat.not_lt_of_le hle h.stat⟩
    · exact .inr ⟨_, hap, ⟨hskill, hlt, hbuff⟩, inside_iff rfl rfl rfl⟩
  by_cases hbuffs : attr = .buffs
  · subst hbuffs
    rcases running_apply (Option.some.inj hf) parts c with ⟨hap, hle⟩ | ⟨hlt, a, hap⟩
    · exact .inl ⟨hap, fun h => Nat.not_lt_of_le hle h.buff⟩
    · exact .inr ⟨_, hap, ⟨hskill, hstat, hlt⟩, inside_iff rfl rfl rfl⟩
  -- the other fields leave the indices as they are
  have hone (attr' : ConditionAttr) (hne : attr ≠ attr') : one attr' attr = 0 := if_neg hne
  have hsome : ∃ c', f.apply parts c = some c' ∧ c'.currentSkill = c.currentSkill ∧
      c'.currentStat = c.currentStat ∧ c'.currentBuff = c.currentBuff := by
    cases attr <;> cases hf <;> first | contradiction | exact ⟨_, rfl, rfl, rfl, rfl⟩
  obtain ⟨c', hap, hi, hj, hk⟩ := hsome
  have hcount := inside_iff (i := 0) (j := 0) (k := 0) hi hj hk
  rw [hone _ hskills, hone _ hstats, hone _ hbuffs]
  exact .inr ⟨c', hap, (hcount 0 0 0).2 ⟨hskill, hstat, hbuff⟩, hcount⟩

/-- The fields have room exactly if there is room for as many of each kind. -/
theorem applyAll_attributes {l : List Entry} (hl : ∀ e ∈ l, Fits endTag (Kind.table .attributes) e)
    {c : Reading (Kind.Data .attributes)} (hc : Inside c 0 0 0) :
    applyAll (Kind.table .attributes) l c = none ↔
      ¬Inside c (tally .skills l) (tally .stats l) (tally .buffs l) := by
  induction l generalizing c with
  | nil => exact iff_of_false (Option.some_ne_none c) (not_not_intro hc)
  | cons e l ih =>
    obtain ⟨t, parts⟩ := e
    obtain ⟨-, f, hf, -⟩ := hl _ List.mem_cons_self
    obtain ⟨attr, hattr, hprop⟩ := Option.bind_eq_some_iff.1 hf
    obtain rfl := ConditionAttr.toByte_of_ofByte hattr
    have hcons (attr' : ConditionAttr) :
        tally attr' ((attr.toByte, parts) :: l) = tally attr' l + one attr' attr :=
      tally_cons attr' attr parts l
    rw [applyAll, hf, Option.bind_some, hcons, hcons, hcons]
    rcases attributes_apply hprop parts hc with ⟨hap, hnot⟩ | ⟨c', hap, hc', hcount⟩
    · rw [hap]
      refine iff_of_true rfl fun h => hnot ⟨?_, ?_, ?_⟩
      · exact Nat.le_trans (Nat.add_le_add_left (Nat.le_add_left ..) _) h.skill
      · exact Nat.le_trans (Nat.add_le_add_left (Nat.le_add_left ..) _) h.stat
      · exact Nat.le_trans (Nat.add_le_add_left (Nat.le_add_left ..) _) h.buff
    · rw [hap, Option.bind_some, ← hcount]
      exact ih (fun e he => hl e (List.mem_cons_of_mem _ he)) hc'

/-- The fields that a new condition scans have room exactly if there is room for them. -/
theorem applyAll_eq_none_iff {kind : Kind} {l : List Entry}
    (hl : ∀ e ∈ l, Fits endTag kind.table e) (b : ConditionBase) (d : kind.Data) :
    applyAll kind.table l { base := b, data := d } = none ↔ ¬Room kind l := by
  by_cases hk : kind = .attributes
  · subst hk
    have hstart : Inside { base := b, data := d } 0 0 0 :=
      ⟨Nat.zero_le _, Nat.zero_le _, Nat.zero_le _⟩
    rw [applyAll_attributes hl hstart]
    refine not_congr ⟨fun ⟨hskill, hstat, hbuff⟩ _ => ?_, fun h => ?_⟩
    · exact ⟨by simpa using hskill, by simpa using hstat, by simpa using hbuff⟩
    · obtain ⟨hskill, hstat, hbuff⟩ := h rfl
      exact ⟨by simpa using hskill, by simpa using hstat, by simpa using hbuff⟩
  · have hsome := applyAll_isSome hl (fun t f hf => ?_) { base := b, data := d }
    · refine iff_of_false (fun h => ?_) (not_not_intro fun h => absurd h hk)
      rw [h] at hsome
      cases hsome
    · obtain ⟨attr, -, hprop⟩ := Option.bind_eq_some_iff.1 hf
      exact apply_isSome hk hprop

/-! ## The fields of a stream -/

/-- The classes of the conditions in a stream, and the fields of each. -/
def recordsFrom : ℕ → List UInt8 → List (Kind × List Entry)
  | 0, _ => []
  | n + 1, s =>
    match createCondition s with
    | none => []
    | some (c, s) => (c.kind, (scan endTag c.kind.table s).1) ::
        recordsFrom n (scan endTag c.kind.table s).2.2

def records (s : List UInt8) : List (Kind × List Entry) := recordsFrom s.length s

theorem takeField_length {attr : ConditionAttr} {n : ℕ} {s l s' : List UInt8}
    (h : takeField attr n s = some (l, s')) : s'.length < s.length := by
  unfold takeField at h
  split at h
  · cases h
  · split at h
    · have hlen := Bytes.take_length h
      rw [List.length_cons]
      omega
    · cases h

/-- A condition takes bytes. -/
theorem createCondition_length {c : Condition} {s s' : List UInt8}
    (h : createCondition s = some (c, s')) : s'.length < s.length := by
  unfold createCondition at h
  obtain ⟨⟨type, s₁⟩, h₁, h⟩ := Option.bind_eq_some_iff.1 h
  obtain ⟨⟨id, s₂⟩, h₂, h⟩ := Option.bind_eq_some_iff.1 h
  obtain ⟨⟨ticks, s₃⟩, h₃, h⟩ := Option.bind_eq_some_iff.1 h
  obtain ⟨⟨buff, s₄⟩, h₄, h⟩ := Option.bind_eq_some_iff.1 h
  obtain ⟨⟨subId, s₅⟩, h₅, h⟩ := Option.bind_eq_some_iff.1 h
  obtain ⟨kind, -, h⟩ := Option.bind_eq_some_iff.1 h
  cases h
  have hlen₁ := takeField_length h₁
  have hlen₂ := takeField_length h₂
  have hlen₃ := takeField_length h₃
  have hlen₄ := takeField_length h₄
  have hlen₅ := takeField_length h₅
  omega

/-- Loading comes to an end, and lies outside of an array exactly if some condition has no room. -/
theorem loadFrom_outside {n : ℕ} {s : List UInt8} (hn : s.length ≤ n) (list : List Condition) :
    ∃ loaded, loadFrom n s list = some loaded ∧
      (loaded = .outside ↔ ¬∀ r ∈ recordsFrom n s, Room r.1 r.2) := by
  induction n generalizing s list with
  | zero =>
    rw [List.eq_nil_of_length_eq_zero (Nat.le_zero.1 hn)]
    exact ⟨.conditions list, rfl, iff_of_false (fun h => nomatch h)
      (not_not_intro fun _ h => absurd h List.not_mem_nil)⟩
  | succ n ih =>
    rcases hcreate : createCondition s with _ | ⟨c, s'⟩
    · rw [loadFrom, recordsFrom, hcreate]
      exact ⟨.conditions list, rfl, iff_of_false (fun h => nomatch h)
        (not_not_intro fun _ h => absurd h List.not_mem_nil)⟩
    · have hlt := createCondition_length hcreate
      have hrest : (scan endTag c.kind.table s').2.2.length ≤ n := by
        have hlen : (scan endTag c.kind.table s').2.2.length ≤ s'.length := scan_length s'
        omega
      have hroom := applyAll_eq_none_iff (scan_fits s') c.base c.data
      rw [loadFrom, recordsFrom, hcreate]
      simp only [Condition.unserialize, read_eq, List.forall_mem_cons]
      rcases hap : applyAll c.kind.table (scan endTag c.kind.table s').1
          { base := c.base, data := c.data } with _ | r
      · exact ⟨.outside, rfl, iff_of_true rfl fun h => hroom.1 hap h.1⟩
      · have hfits : Room c.kind (scan endTag c.kind.table s').1 := by
          by_contra hnot
          rw [hroom.2 hnot] at hap
          cases hap
        simp only [hfits, true_and]
        by_cases hend : (scan endTag c.kind.table s').2.1 = true
        · simp only [if_pos hend]
          exact ih hrest _
        · simp only [if_neg hend]
          exact ih hrest _

/-! ## Saving and loading -/

/-- The conditions of a player are read back as they were exactly if each that persists has no
other ticks or members than those that are read back. Each takes exactly the bytes that it has
written. Whatever bytes are loaded, loading comes to an end, and lies outside of an array exactly
if some condition of attributes has too many fields. -/
theorem conditions_stored {l : List Condition} (hl : ∀ c ∈ l, c.Created) (s : List UInt8) :
    (loadPlayerConditions (savePlayerConditions l) =
        some (.conditions (l.filter Condition.isPersistent).reverse) ↔
      ∀ c ∈ l, c.isPersistent → c.Kept) ∧
    (∀ c ∈ l, ∃ c' s' r, createCondition (c.serialize ++ endTag :: s) = some (c', s') ∧
      c'.unserialize s' = some (.done r s)) ∧
    ∃ loaded, loadPlayerConditions s = some loaded ∧
      (loaded = .outside ↔ ∃ r ∈ records s, ¬Room r.1 r.2) := by
  refine ⟨?_, fun c hc => ?_, ?_⟩
  · rw [load_save hl, Option.some.injEq, Loaded.conditions.injEq, List.reverse_inj]
    constructor
    · intro h c hc hpersists
      have hmem : c ∈ l.filter Condition.isPersistent := List.mem_filter.2 ⟨hc, hpersists⟩
      rw [← List.map_id (l.filter Condition.isPersistent), List.map_map] at h
      exact (Condition.restored_eq_iff hpersists).1 (List.map_inj_left.1 h c hmem)
    · intro h
      refine (List.map_congr_left fun c hc => ?_).trans (List.map_id _)
      obtain ⟨hc, hpersists⟩ := List.mem_filter.1 hc
      exact (Condition.restored_eq_iff hpersists).2 (h c hc hpersists)
  · obtain ⟨r, hread, -⟩ := c.unserialize_serialize s
    exact ⟨c.created, _, r, Condition.createCondition_serialize (hl c hc) _, hread⟩
  · obtain ⟨loaded, hload, houtside⟩ := loadFrom_outside (Nat.le_refl s.length) []
    refine ⟨loaded, hload, houtside.trans ?_⟩
    simp only [not_forall, exists_prop, records]

/-- A fire that burns once in 4 seconds. -/
def burning (ticks : Value) : Condition where
  kind := .damage
  base := {
    conditionType := 2, id := 0, ticks := ticks, isBuff := false, subId := 0
    tickSound := 0, addSound := 0 }
  data := ({ damageList := [⟨4000, -10, 4000⟩] } : Damage)

theorem burning_created (ticks : Value) : ∀ c ∈ [burning ticks], c.Created :=
  List.forall_mem_singleton.2 rfl

theorem conditions_stored_burning :
    loadPlayerConditions (savePlayerConditions [burning 4000]) =
      some (.conditions [burning 4000]) := by
  refine (conditions_stored (burning_created 4000) []).1.2
    (List.forall_mem_singleton.2 fun _ => ?_)
  refine ⟨⟨rfl, rfl, rfl, rfl, rfl, rfl, rfl, rfl⟩, rfl, fun l hl => ?_⟩
  rcases List.prefix_cons_iff.1 hl with rfl | ⟨l, rfl, htail⟩
  · decide
  · rw [List.prefix_nil.1 htail]
    decide

/-- 14 fields of skills. -/
def overfull : List UInt8 :=
  write ([entry .type [20], entry .id [0, 0, 0, 0], entry .ticks [1, 0, 0, 0],
    entry .isBuff [0], entry .subId [0, 0, 0, 0]] ++
      List.replicate 14 (entry .skills [1, 0, 0, 0]))

/-- After 2 of the 4 seconds the fire is saved, and burns for 4 seconds again when it is loaded. And
a field of skills is written behind the last one. -/
theorem burning_restarts :
    (loadPlayerConditions (savePlayerConditions [burning 2000]) =
        some (.conditions [burning 4000]) ∧ burning 4000 ≠ burning 2000) ∧
      loadPlayerConditions overfull = some .outside := by
  refine ⟨⟨load_save (burning_created 2000), fun h => ?_⟩, ?_⟩
  · have hticks := congrArg (·.base.ticks) h
    revert hticks
    decide
  · rfl

end Canary.Conditions
