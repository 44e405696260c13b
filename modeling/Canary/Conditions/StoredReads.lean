import Canary.Conditions.Stored

/-!
# Stored conditions are read back

What a condition writes is read back, and nothing more, as the condition with which its ticks and
the members that are not saved have been made anew (`load_save`). So a list of conditions is read
back, in the opposite order, exactly if each is such a condition: the ticks of a damage condition
are the sum of its intervals, and members that are not saved have the values of the constructor.
-/

namespace Canary.Conditions

open Bytes (encode decode decode_encode length_encode)
open FieldStream

/-! ## Values -/

@[simp] theorem length_bytes (n : ℕ) {w : ℕ} (v : BitVec w) : (bytes n v).length = n :=
  length_encode ..

@[simp] theorem length_boolByte (b : Bool) : (boolByte b).length = 1 := rfl

/-- Enough bytes give the value, cut to a width. -/
theorem value_bytes {w n m : ℕ} (hw : w ≤ 8 * n) (v : BitVec m) :
    value w (bytes n v) = v.setWidth w := by
  have hpow : 256 ^ n = 2 ^ (8 * n) := by rw [Nat.pow_mul]
  refine BitVec.eq_of_toNat_eq ?_
  rw [value, bytes, decode_encode, BitVec.toNat_ofNat, BitVec.toNat_setWidth, hpow,
    Nat.mod_mod_of_dvd _ (Nat.pow_dvd_pow 2 hw)]

@[simp] theorem value_bytes_four (v : Value) : value 32 (bytes 4 v) = v := by
  rw [value_bytes (by decide), BitVec.setWidth_eq]

@[simp] theorem decode_boolByte (b : Bool) : decide (decode (boolByte b) ≠ 0) = b := by
  cases b <;> rfl

@[simp] theorem ofBytes_bytes (info : IntervalInfo) : IntervalInfo.ofBytes info.bytes = info := by
  have hvalue (v : Value) : BitVec.ofNat 32 (decode (encode 4 v.toNat)) = v := value_bytes_four v
  have hlen (v : Value) : (encode 4 v.toNat).length = 4 := length_encode ..
  have hdrop (v : Value) : (encode 4 v.toNat).drop 8 = [] :=
    List.drop_eq_nil_of_le (by rw [hlen]; decide)
  ext1 <;>
    simp [IntervalInfo.ofBytes, IntervalInfo.bytes, List.drop_append, hlen, hvalue, hdrop]

namespace ConditionAttr

@[simp] theorem ofByte_toByte (attr : ConditionAttr) : ofByte attr.toByte = some attr := by
  cases attr <;> decide

theorem toByte_ne_endTag (attr : ConditionAttr) : attr.toByte ≠ endTag := by
  cases attr <;> decide

theorem toByte_of_ofByte {b : UInt8} {attr : ConditionAttr} (h : ofByte b = some attr) :
    attr.toByte = b := by
  simpa using List.find?_some h

theorem toByte_inj {attr attr' : ConditionAttr} (h : attr.toByte = attr'.toByte) :
    attr = attr' := by
  have heq : some attr = some attr' := by rw [← ofByte_toByte attr, h, ofByte_toByte]
  exact Option.some.inj heq

end ConditionAttr

@[simp] theorem table_toByte (kind : Kind) (attr : ConditionAttr) :
    kind.table attr.toByte = kind.unserializeProp attr := by
  rw [Kind.table, ConditionAttr.ofByte_toByte, Option.bind_some]

/-! ## The fields of a class -/

/-- The fields are read back, and lead from one state to the other. -/
structure ReadsBack (kind : Kind) (l : List Entry) (c c' : Reading kind.Data) : Prop where
  fits : ∀ e ∈ l, Fits endTag kind.table e
  apply : applyAll kind.table l c = some c'

namespace ReadsBack

variable {kind : Kind} {l l' : List Entry} {c c' c'' : Reading kind.Data} {attr : ConditionAttr}

theorem nil : ReadsBack kind [] c c := ⟨fun _ h => absurd h List.not_mem_nil, rfl⟩

theorem append (h : ReadsBack kind l c c') (h' : ReadsBack kind l' c' c'') :
    ReadsBack kind (l ++ l') c c'' := by
  refine ⟨fun e he => (List.mem_append.1 he).elim (h.fits e) (h'.fits e), ?_⟩
  rw [applyAll_append, h.apply]
  exact h'.apply

theorem cons {e : Entry} {f : Handler (Reading kind.Data)}
    (hf : kind.unserializeProp attr = some f) (htag : e.1 = attr.toByte)
    (hlen : e.2.map List.length = f.sizes) (hap : f.apply e.2 c = some c')
    (h : ReadsBack kind l c' c'') : ReadsBack kind (e :: l) c c'' := by
  have htable : kind.table e.1 = some f := by rw [htag, table_toByte, hf]
  refine ⟨fun e' he => ?_, ?_⟩
  · rcases List.mem_cons.1 he with rfl | he
    · exact ⟨htag ▸ attr.toByte_ne_endTag, f, htable, hlen⟩
    · exact h.fits e' he
  · rw [applyAll, htable, Option.bind_some, hap]
    exact h.apply

/-- A field with one value. -/
theorem cons_single {part : List UInt8} {n : ℕ}
    {set : List UInt8 → Reading kind.Data → Reading kind.Data}
    (hf : kind.unserializeProp attr = some (single n set)) (hlen : part.length = n)
    (h : ReadsBack kind l (set part c) c') : ReadsBack kind (entry attr part :: l) c c' := by
  refine cons hf rfl ?_ rfl h
  rw [← hlen]
  rfl

end ReadsBack

/-! ## What is stored -/

/-- The ticks with the intervals that are read. -/
def ticksWith (ticks : Value) (l : List IntervalInfo) : Value :=
  l.foldl (fun ticks info => if ticks = -1 then ticks else ticks + info.interval) ticks

namespace Kind

/-- The members that are saved, and the others as the constructor makes them. -/
def stored : (kind : Kind) → kind.Data → kind.Data
  | damage, (d : Damage) => ({
      periodDamage := d.periodDamage, delayed := d.delayed, damageList := d.damageList } : Damage)
  | speed, d => d
  | outfit, (d : Outfit) => ({ outfit := d.outfit } : Outfit)
  | light, d => d
  | regeneration, (d : Regeneration) => ({ d with
      internalHealthTicks := 0, internalManaTicks := 0 } : Regeneration)
  | soul, (d : Soul) => ({ d with internalSoulTicks := 0 } : Soul)
  | attributes, (d : Attributes) => { init attributes with toModifiers := d.toModifiers }
  | manaShield, d => d
  | feared, _ => init feared
  | invisible, _ | spellCooldown, _ | spellGroupCooldown, _ | generic, _ => ()

/-- The ticks after the fields have been read. -/
def ticks : (kind : Kind) → kind.Data → Value → Value
  | damage, (d : Damage), ticks => ticksWith ticks d.damageList
  | speed, _, ticks | outfit, _, ticks | light, _, ticks | regeneration, _, ticks
  | soul, _, ticks | attributes, _, ticks | manaShield, _, ticks | feared, _, ticks
  | invisible, _, ticks | spellCooldown, _, ticks | spellGroupCooldown, _, ticks
  | generic, _, ticks => ticks

end Kind

section Kinds

variable (b : ConditionBase)

theorem readsBack_intervals (l : List IntervalInfo) (d : Damage) :
    ReadsBack .damage (l.map fun info => entry .intervalData info.bytes) ⟨b, d, 0, 0, 0⟩
      ⟨{ b with ticks := ticksWith b.ticks l },
        { d with damageList := d.damageList ++ l }, 0, 0, 0⟩ := by
  induction l generalizing b d with
  | nil =>
    rw [List.append_nil]
    exact .nil
  | cons info l ih =>
    have hlen : info.bytes.length = 12 := by simp [IntervalInfo.bytes, length_encode]
    refine .cons_single rfl hlen ?_
    have hlist : d.damageList ++ info :: l = (d.damageList ++ [info]) ++ l :=
      List.append_cons ..
    simp only [ofBytes_bytes, hlist]
    exact ih _ _

theorem readsBack_damage (d : Damage) :
    ReadsBack .damage d.entries ⟨b, Kind.init .damage, 0, 0, 0⟩
      ⟨{ b with ticks := Kind.ticks .damage d b.ticks }, Kind.stored .damage d, 0, 0, 0⟩ := by
  refine .cons_single rfl (length_boolByte _) (.cons_single rfl (length_bytes ..) ?_)
  simp only [value_bytes_four, decode_boolByte]
  exact readsBack_intervals b d.damageList _

theorem readsBack_speed (d : Speed) :
    ReadsBack .speed d.entries ⟨b, Kind.init .speed, 0, 0, 0⟩ ⟨b, d, 0, 0, 0⟩ := by
  refine .cons_single rfl (length_bytes ..) (.cons_single rfl (length_bytes ..)
    (.cons_single rfl (length_bytes ..) (.cons_single rfl (length_bytes ..)
      (.cons_single rfl (length_bytes ..) ?_))))
  simp only [value_bytes_four]
  exact .nil

theorem readsBack_outfit (d : Outfit) :
    ReadsBack .outfit d.entries ⟨b, Kind.init .outfit, 0, 0, 0⟩
      ⟨b, Kind.stored .outfit d, 0, 0, 0⟩ := by
  have hvalue : value 144 (bytes 18 d.outfit) = d.outfit := by
    rw [value_bytes (by decide), BitVec.setWidth_eq]
  refine .cons_single rfl (length_bytes ..) ?_
  simp only [hvalue]
  exact .nil

theorem readsBack_light (d : Light) :
    ReadsBack .light d.entries ⟨b, Kind.init .light, 0, 0, 0⟩ ⟨b, d, 0, 0, 0⟩ := by
  have hcut (v : BitVec 8) : value 8 (bytes 4 (v.setWidth 32)) = v := by
    rw [value_bytes (by decide), BitVec.setWidth_setWidth_of_le _ (by decide), BitVec.setWidth_eq]
  refine .cons_single rfl (length_bytes ..) (.cons_single rfl (length_bytes ..)
    (.cons_single rfl (length_bytes ..) (.cons_single rfl (length_bytes ..) ?_)))
  simp only [value_bytes_four, hcut]
  exact .nil

theorem readsBack_regeneration (d : Regeneration) :
    ReadsBack .regeneration d.entries ⟨b, Kind.init .regeneration, 0, 0, 0⟩
      ⟨b, Kind.stored .regeneration d, 0, 0, 0⟩ := by
  refine .cons_single rfl (length_bytes ..) (.cons_single rfl (length_bytes ..)
    (.cons_single rfl (length_bytes ..) (.cons_single rfl (length_bytes ..) ?_)))
  simp only [value_bytes_four]
  exact .nil

theorem readsBack_soul (d : Soul) :
    ReadsBack .soul d.entries ⟨b, Kind.init .soul, 0, 0, 0⟩ ⟨b, Kind.stored .soul d, 0, 0, 0⟩ := by
  refine .cons_single rfl (length_bytes ..) (.cons_single rfl (length_bytes ..) ?_)
  simp only [value_bytes_four]
  exact .nil

theorem readsBack_manaShield (d : ManaShield) :
    ReadsBack .manaShield d.entries ⟨b, Kind.init .manaShield, 0, 0, 0⟩ ⟨b, d, 0, 0, 0⟩ := by
  have hvalue : value 16 (bytes 2 d.manaShield) = d.manaShield := by
    rw [value_bytes (by decide), BitVec.setWidth_eq]
  refine .cons_single rfl (length_bytes ..) ?_
  simp only [hvalue]
  exact .nil

end Kinds

/-! ### Attributes -/

theorem Stat.mem_all (stat : Stat) : stat ∈ Stat.all := by
  cases stat <;> decide

/-- The values of an array, from its beginning. -/
theorem readsBack_array {kind : Kind} {ι : Type} [DecidableEq ι] {attr : ConditionAttr} {all : List ι}
    (hall : ∀ x, x ∈ all) {array : Reading kind.Data → ι → Value} {index : Reading kind.Data → ℕ}
    {store : (ι → Value) → ℕ → Reading kind.Data → Reading kind.Data}
    (hf : kind.unserializeProp attr = some (running all array index store))
    (harray : ∀ a i c, array (store a i c) = a) (hindex : ∀ a i c, index (store a i c) = i)
    (hstore : ∀ a i a' i' c, store a i (store a' i' c) = store a i c) (v : ι → Value)
    (c : Reading kind.Data) (a : ι → Value) :
    ReadsBack kind (arrayEntries attr all v) (store a 0 c) (store v all.length c) := by
  suffices h : ∀ (post pre : List ι) (a : ι → Value), all = pre ++ post → (∀ x ∈ pre, a x = v x) →
      ReadsBack kind (arrayEntries attr post v) (store a pre.length c) (store v all.length c) from
    h all [] a rfl fun _ hx => absurd hx List.not_mem_nil
  intro post
  induction post with
  | nil =>
    intro pre a heq ha
    rw [List.append_nil] at heq
    subst heq
    have hav : a = v := funext fun x => ha x (hall x)
    rw [hav]
    exact .nil
  | cons x post ih =>
    intro pre a heq ha
    have hx : all[pre.length]? = some x := by
      rw [heq]
      simp
    have hap : (running all array index store).apply [bytes 4 (v x)] (store a pre.length c) =
        some (store (Function.update a x (v x)) (pre.length + 1) c) := by
      simp [running, put, harray, hindex, hstore, hx]
    refine .cons hf rfl (by simp [entry, running]) hap ?_
    have hnext := ih (pre ++ [x]) (Function.update a x (v x)) (by simp [heq]) fun y hy => ?_
    · rw [List.length_append] at hnext
      exact hnext
    · by_cases hyx : y = x
      · rw [hyx, Function.update_self]
      · rw [Function.update_of_ne hyx]
        rcases List.mem_append.1 hy with hy | hy
        · exact ha y hy
        · exact absurd (List.mem_singleton.1 hy) hyx

/-- The values that come with their indices. -/
theorem setIndexed_flatMap (l : List CombatIndex) (a v : CombatIndex → Value) :
    setIndexed a (l.flatMap fun i => [[UInt8.ofNat i.val], bytes 4 (v i)]) =
      fun i => if i ∈ l then v i else a i := by
  induction l generalizing a with
  | nil =>
    funext i
    simp [setIndexed]
  | cons i l ih =>
    have hdecode : decode [UInt8.ofNat i.val] = i.val := by
      have hlt := i.isLt
      simp [decode]
      omega
    have hlt : decode [UInt8.ofNat i.val] < 14 := by
      rw [hdecode]
      exact i.isLt
    have hi : (⟨decode [UInt8.ofNat i.val], hlt⟩ : CombatIndex) = i := Fin.ext hdecode
    rw [List.flatMap_cons, List.cons_append, List.cons_append, List.nil_append, setIndexed,
      dif_pos hlt, hi, ih, value_bytes_four]
    funext j
    by_cases hj : j ∈ l
    · simp [hj]
    · by_cases hji : j = i
      · simp [hji]
      · simp [hj, hji]

theorem setIndexed_entry (a v : CombatIndex → Value) (attr : ConditionAttr) :
    setIndexed a (indexedEntry attr v).2 = v := by
  rw [indexedEntry, setIndexed_flatMap]
  funext i
  rw [if_pos (List.mem_finRange i)]

theorem length_indexedEntry (attr : ConditionAttr) (v : CombatIndex → Value) :
    (indexedEntry attr v).2.map List.length = indexedSizes := by
  have hparts (i : CombatIndex) :
      ([[UInt8.ofNat i.val], bytes 4 (v i)] : List (List UInt8)).map List.length = [1, 4] := by simp
  rw [indexedEntry, List.map_flatMap]
  simp only [hparts]
  rfl

theorem readsBack_attributes (b : ConditionBase) (d : Attributes) :
    ReadsBack .attributes d.entries ⟨b, Kind.init .attributes, 0, 0, 0⟩
      ⟨b, Kind.stored .attributes d, 13, 5, 3⟩ := by
  have hskills := readsBack_array List.mem_finRange
    (rfl : Kind.unserializeProp .attributes .skills = some (running _ _ _ _)) (fun _ _ _ => rfl)
    (fun _ _ _ => rfl) (fun _ _ _ _ _ => rfl) d.skills ⟨b, Kind.init .attributes, 0, 0, 0⟩ 0
  have hstats (c : Reading Attributes) := readsBack_array Stat.mem_all
    (rfl : Kind.unserializeProp .attributes .stats = some (running _ _ _ _)) (fun _ _ _ => rfl)
    (fun _ _ _ => rfl) (fun _ _ _ _ _ => rfl) d.stats c 0
  have hbuffs (c : Reading Attributes) := readsBack_array List.mem_finRange
    (rfl : Kind.unserializeProp .attributes .buffs = some (running _ _ _ _)) (fun _ _ _ => rfl)
    (fun _ _ _ => rfl) (fun _ _ _ _ _ => rfl) d.buffs c 0
  have hcut : value 8 (bytes 1 d.charmChanceModifier) = d.charmChanceModifier := by
    rw [value_bytes (by decide), BitVec.setWidth_eq]
  refine .append (.append (.append hskills
    (hstats ⟨b, { (Kind.init .attributes : Attributes) with skills := d.skills }, 13, 0, 0⟩))
    (hbuffs ⟨b, { (Kind.init .attributes : Attributes) with
      skills := d.skills, stats := d.stats }, 13, 5, 0⟩)) ?_
  refine .cons rfl rfl (length_indexedEntry ..) rfl (.cons rfl rfl (length_indexedEntry ..) rfl
    (.cons_single rfl (length_bytes ..) ?_))
  simp only [setIndexed_entry, hcut]
  exact .nil

/-! ### Any class -/

theorem readsBack_sounds (kind : Kind) (b : ConditionBase) (d : kind.Data) :
    ReadsBack kind b.sounds ⟨{ b with tickSound := 0, addSound := 0 }, d, 0, 0, 0⟩
      ⟨b, d, 0, 0, 0⟩ := by
  have hsound (v : BitVec 16) : value 16 (bytes 2 v) = v := by
    rw [value_bytes (by decide), BitVec.setWidth_eq]
  have htick : kind.unserializeProp .tickSound =
      some (singleBase 2 fun l c => { c with tickSound := value 16 l }) := by
    cases kind <;> rfl
  have hadd : kind.unserializeProp .addSound =
      some (singleBase 2 fun l c => { c with addSound := value 16 l }) := by
    cases kind <;> rfl
  refine .cons_single htick (length_bytes ..) (.cons_single hadd (length_bytes ..) ?_)
  simp only [hsound]
  exact .nil

theorem readsBack_entries (kind : Kind) (b : ConditionBase) (d : kind.Data) :
    ∃ c, ReadsBack kind (kind.entries d) ⟨b, kind.init, 0, 0, 0⟩ c ∧
      c.base = { b with ticks := kind.ticks d b.ticks } ∧ c.data = kind.stored d := by
  cases kind with
  | damage => exact ⟨_, readsBack_damage b d, rfl, rfl⟩
  | speed => exact ⟨_, readsBack_speed b d, rfl, rfl⟩
  | outfit => exact ⟨_, readsBack_outfit b d, rfl, rfl⟩
  | light => exact ⟨_, readsBack_light b d, rfl, rfl⟩
  | regeneration => exact ⟨_, readsBack_regeneration b d, rfl, rfl⟩
  | soul => exact ⟨_, readsBack_soul b d, rfl, rfl⟩
  | attributes => exact ⟨_, readsBack_attributes b d, rfl, rfl⟩
  | manaShield => exact ⟨_, readsBack_manaShield b d, rfl, rfl⟩
  | feared | invisible | spellCooldown | spellGroupCooldown | generic =>
    exact ⟨_, .nil, rfl, rfl⟩

/-! ## Conditions -/

theorem takeField_cons {attr : ConditionAttr} {n : ℕ} {l : List UInt8} (h : l.length = n)
    (s : List UInt8) : takeField attr n (attr.toByte :: (l ++ s)) = some (l, s) := by
  rw [takeField, if_pos rfl, Bytes.take_append h]

namespace Condition

/-- What the header creates. -/
def created (c : Condition) : Condition where
  kind := c.kind
  base := { c.base with
    ticks := if c.kind = .damage then 0 else c.base.ticks, tickSound := 0, addSound := 0 }
  data := c.kind.init

/-- What is read back. -/
def restored (c : Condition) : Condition where
  kind := c.kind
  base := { c.base with
    ticks := c.kind.ticks c.data (if c.kind = .damage then 0 else c.base.ticks) }
  data := c.kind.stored c.data

theorem createCondition_serialize {c : Condition} (hc : c.Created) (s : List UInt8) :
    createCondition (c.serialize ++ s) =
      some (c.created, write (c.base.sounds ++ c.kind.entries c.data) ++ s) := by
  have hbytes : c.serialize ++ s = ConditionAttr.type.toByte :: (bytes 1 c.base.conditionType ++
      (ConditionAttr.id.toByte :: (bytes 4 (c.base.id.signExtend 32) ++
        (ConditionAttr.ticks.toByte :: (bytes 4 c.base.ticks ++
          (ConditionAttr.isBuff.toByte :: (boolByte c.base.isBuff ++
            (ConditionAttr.subId.toByte :: (bytes 4 c.base.subId ++
              (write (c.base.sounds ++ c.kind.entries c.data) ++ s)))))))))) := by
    simp [serialize, ConditionBase.header, write, entry]
  have htype : value 8 (bytes 1 c.base.conditionType) = c.base.conditionType := by
    rw [value_bytes (by decide), BitVec.setWidth_eq]
  have hid : value 8 (bytes 4 (c.base.id.signExtend 32)) = c.base.id := by
    rw [value_bytes (by decide)]
    ext i hi
    simp [BitVec.getElem_setWidth, BitVec.getLsbD_signExtend, hi]
    omega
  have hkind : Kind.ofType c.base.conditionType = some c.kind := hc
  rw [hbytes, createCondition]
  simp only [takeField_cons (length_bytes ..), takeField_cons (length_boolByte _),
    Option.bind_eq_bind, Option.bind_some, htype, hid, hkind, value_bytes_four, decode_boolByte]
  rfl

/-- A condition is read back from exactly the bytes that it has written. -/
theorem unserialize_serialize (c : Condition) (s : List UInt8) :
    ∃ r, c.created.unserialize (write (c.base.sounds ++ c.kind.entries c.data) ++ endTag :: s) =
        some (.done r s) ∧ ⟨c.kind, r.base, r.data⟩ = c.restored := by
  obtain ⟨r, hr, hbase, hdata⟩ := readsBack_entries c.kind
    { c.base with ticks := if c.kind = .damage then 0 else c.base.ticks } c.data
  have hread := (readsBack_sounds c.kind
    { c.base with ticks := if c.kind = .damage then 0 else c.base.ticks } c.kind.init).append hr
  refine ⟨r, read_write hread.fits hread.apply s, ?_⟩
  rw [hbase, hdata]
  rfl

end Condition

/-! ## Lists of conditions -/

/-- The conditions that persist are read back in the opposite order. -/
theorem load_save {l : List Condition} (hl : ∀ c ∈ l, c.Created) :
    loadPlayerConditions (savePlayerConditions l) =
      some (.conditions ((l.filter Condition.isPersistent).map Condition.restored).reverse) := by
  suffices h : ∀ l : List Condition, (∀ c ∈ l, c.Created) → ∀ n, l.length ≤ n → ∀ list,
      loadFrom n (l.flatMap fun c => c.serialize ++ [endTag]) list =
        some (.conditions ((l.map Condition.restored).reverse ++ list)) by
    have hlen : (l.filter Condition.isPersistent).length ≤ (savePlayerConditions l).length := by
      rw [savePlayerConditions]
      induction l.filter Condition.isPersistent with
      | nil => exact Nat.le_refl _
      | cons c l ih =>
        rw [List.flatMap_cons, List.length_append, List.length_append, List.length_cons,
          List.length_singleton]
        omega
    have hload := h _ (fun c hc => hl c (List.mem_of_mem_filter hc)) _ hlen []
    rw [List.append_nil] at hload
    exact hload
  intro l hl
  induction l with
  | nil =>
    intro n _ list
    cases n <;> rfl
  | cons c l ih =>
    intro n hn list
    obtain ⟨n, rfl⟩ := Nat.exists_eq_succ_of_ne_zero (Nat.ne_zero_of_lt hn)
    have hl' := fun c hc => hl c (List.mem_cons_of_mem _ hc)
    have hn' : l.length ≤ n := by simpa using hn
    obtain ⟨r, hread, hr⟩ := c.unserialize_serialize
      (l.flatMap fun c => c.serialize ++ [endTag])
    have hbytes : (c :: l).flatMap (fun c => c.serialize ++ [endTag]) =
        c.serialize ++ (endTag :: l.flatMap fun c => c.serialize ++ [endTag]) := by
      simp
    rw [hbytes, loadFrom, Condition.createCondition_serialize (hl c List.mem_cons_self)]
    simp only [hread]
    rw [ih hl' n hn']
    simp [Condition.created, hr]

/-! ## Conditions that stay as they are -/

theorem ticksWith_neg_one (l : List IntervalInfo) : ticksWith (-1) l = -1 := by
  induction l with
  | nil => rfl
  | cons info l ih => exact ih

/-- The ticks are the sum of the intervals, unless they come to -1 before. -/
theorem ticksWith_eq_iff {v : Value} (hv : v ≠ -1) (l : List IntervalInfo) (ticks : Value) :
    ticksWith ticks l = v ↔ ticks + (l.map (·.interval)).sum = v ∧
      ∀ l', l' <+: l → ticks + (l'.map (·.interval)).sum ≠ -1 := by
  have hnil (ticks : Value) : ticks + (([] : List IntervalInfo).map (·.interval)).sum = ticks := by
    simp
  induction l generalizing ticks with
  | nil =>
    rw [hnil, ticksWith, List.foldl_nil]
    constructor
    · rintro rfl
      refine ⟨rfl, fun l' hl' => ?_⟩
      rw [List.prefix_nil.1 hl', hnil]
      exact hv
    · exact And.left
  | cons info l ih =>
    have hsum (l : List IntervalInfo) : ticks + ((info :: l).map (·.interval)).sum =
        ticks + info.interval + (l.map (·.interval)).sum := by
      rw [List.map_cons, List.sum_cons, BitVec.add_assoc]
    by_cases hticks : ticks = -1
    · subst hticks
      rw [ticksWith_neg_one]
      constructor
      · rintro rfl
        exact absurd rfl hv
      · rintro ⟨-, h⟩
        exact absurd (hnil (-1)) (h [] List.nil_prefix)
    · have hcons : ticksWith ticks (info :: l) = ticksWith (ticks + info.interval) l := by
        rw [ticksWith, List.foldl_cons, if_neg hticks]
        rfl
      rw [hcons, hsum]
      refine (ih _).trans (and_congr_right fun _ => ?_)
      constructor
      · intro h l' hl'
        rcases List.prefix_cons_iff.1 hl' with rfl | ⟨l', rfl, htail⟩
        · rw [hnil]
          exact hticks
        · rw [hsum]
          exact h l' htail
      · intro h l' hl'
        rw [← hsum]
        exact h _ (List.prefix_cons_iff.2 (.inr ⟨l', rfl, hl'⟩))

namespace Condition

/-- Members that are not saved have the values of the constructor, and the ticks of a damage
condition are the sum of its intervals, which is not -1 before. -/
def Kept : Condition → Prop
  | ⟨.damage, b, (d : Damage)⟩ =>
    (d.maxDamage = 0 ∧ d.minDamage = 0 ∧ d.startDamage = 0 ∧ d.periodDamageTick = 0 ∧
      d.tickInterval = 2000 ∧ d.forceUpdate = false ∧ d.field = false ∧ d.owner = 0) ∧
    (d.damageList.map (·.interval)).sum = b.ticks ∧
    ∀ l, l <+: d.damageList → (l.map (·.interval)).sum ≠ -1
  | ⟨.outfit, _, (d : Outfit)⟩ => d.monsterName = ""
  | ⟨.regeneration, _, (d : Regeneration)⟩ => d.internalHealthTicks = 0 ∧ d.internalManaTicks = 0
  | ⟨.soul, _, (d : Soul)⟩ => d.internalSoulTicks = 0
  | ⟨.attributes, _, (d : Attributes)⟩ =>
    d.skillsPercent = 0 ∧ d.statsPercent = 0 ∧ d.buffsPercent = 0 ∧ d.absorbsPercent = 0 ∧
      d.increasesPercent = 0 ∧ d.disableDefense = false
  | ⟨.feared, _, (d : Feared)⟩ => d.fleeingFromPos = (0, 0, 0) ∧ d.fleeIndx = 99
  | ⟨.speed, _, _⟩ | ⟨.light, _, _⟩ | ⟨.manaShield, _, _⟩ | ⟨.invisible, _, _⟩
  | ⟨.spellCooldown, _, _⟩ | ⟨.spellGroupCooldown, _, _⟩ | ⟨.generic, _, _⟩ => True

theorem restored_eq_iff {c : Condition} (hc : c.isPersistent) : c.restored = c ↔ c.Kept := by
  obtain ⟨kind, b, d⟩ := c
  have hticks : b.ticks ≠ -1 := by
    simp only [isPersistent, Bool.and_eq_true, bne_iff_ne] at hc
    exact hc.1
  -- The members of the base class all come back, but the ticks of a damage condition.
  have heq : restored ⟨kind, b, d⟩ = ⟨kind, b, d⟩ ↔
      kind.ticks d (if kind = .damage then 0 else b.ticks) = b.ticks ∧ kind.stored d = d := by
    rw [restored, Condition.mk.injEq, ConditionBase.ext_iff]
    simp
  rw [heq]
  cases kind with
  | damage =>
    -- Its ticks are added up interval by interval, from 0.
    have hsum := ticksWith_eq_iff hticks (Damage.damageList d) 0
    have hzero (v : Value) : 0 + v = v := BitVec.zero_add v
    simp only [hzero] at hsum
    constructor
    · rintro ⟨hb, hd⟩
      refine ⟨?_, hsum.1 hb⟩
      rw [← hd]
      exact ⟨rfl, rfl, rfl, rfl, rfl, rfl, rfl, rfl⟩
    · rintro ⟨hd, hb⟩
      refine ⟨hsum.2 hb, ?_⟩
      cases d
      obtain ⟨rfl, rfl, rfl, rfl, rfl, rfl, rfl, rfl⟩ := hd
      rfl
  | outfit =>
    constructor
    · rintro ⟨-, h⟩
      rw [← h]
      rfl
    · intro h
      cases d
      obtain rfl := h
      exact ⟨rfl, rfl⟩
  | regeneration =>
    constructor
    · rintro ⟨-, h⟩
      rw [← h]
      exact ⟨rfl, rfl⟩
    · intro h
      cases d
      obtain ⟨rfl, rfl⟩ := h
      exact ⟨rfl, rfl⟩
  | soul =>
    constructor
    · rintro ⟨-, h⟩
      rw [← h]
      rfl
    · intro h
      cases d
      obtain rfl := h
      exact ⟨rfl, rfl⟩
  | attributes =>
    constructor
    · rintro ⟨-, h⟩
      rw [← h]
      exact ⟨rfl, rfl, rfl, rfl, rfl, rfl⟩
    · intro h
      cases d
      obtain ⟨rfl, rfl, rfl, rfl, rfl, rfl⟩ := h
      exact ⟨rfl, rfl⟩
  | feared =>
    constructor
    · rintro ⟨-, h⟩
      rw [← h]
      exact ⟨rfl, rfl⟩
    · intro h
      cases d
      obtain ⟨rfl, rfl⟩ := h
      exact ⟨rfl, rfl⟩
  | invisible | spellCooldown | spellGroupCooldown | generic =>
    simp only [Kept, Kind.ticks, iff_true]
    exact ⟨rfl, rfl⟩
  | speed | light | manaShield =>
    simp [Kept, Kind.ticks, Kind.stored]

end Condition

end Canary.Conditions
