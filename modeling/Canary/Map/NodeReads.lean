import Canary.Map.NodeTree

/-!
# Reading along a tree of nodes

What a stream answers to reads that follow a tree are the values of the tree, and it consumes
their encodings, exactly if every read is `Plain` (`gives_iff`, from `settled` for one read). A
test at an escaped byte of the properties goes wrong in all but one case, as `back` does not go
back over the escape, and `getString` copies the escapes as well.
-/

namespace Canary.Map

open OTB FileStream

/-! ## The stream along the tree -/

/-- The stream, where `ts` remains of `all`. -/
def streamAt (all ts : List Token) : FileStream where
  data := encode all
  pos := UInt32.ofNat ((encode all).length - (encode ts).length)
  nodes := UInt32.ofNat (depth ts)

/-- How many bytes were consumed. -/
def consumed (all ts : List Token) : Nat := (encode all).length - (encode ts).length

/-- What remains of a tree that is small enough. -/
structure Remains (all ts : List Token) : Prop where
  small : (encode all).length < 2 ^ 32
  suffix : ts <:+ all
  nested : Nested ts

namespace Remains

variable {all ts us : List Token}

theorem of_suffix (h : Remains all ts) (hu : us <:+ ts) (hn : Nested us) : Remains all us :=
  ⟨h.small, hu.trans h.suffix, hn⟩

theorem length_le (h : Remains all ts) : (encode ts).length ≤ (encode all).length :=
  (encode_suffix h.suffix).length_le

theorem pos (h : Remains all ts) : (streamAt all ts).pos.toNat = consumed all ts := by
  have hsmall := h.small
  rw [streamAt, UInt32.toNat_ofNat', consumed]
  exact Nat.mod_eq_of_lt (by omega)

theorem fits (h : Remains all ts) : (streamAt all ts).Fits :=
  ⟨h.small, h.pos ▸ Nat.sub_le _ _⟩

theorem rest (h : Remains all ts) : (streamAt all ts).rest = encode ts := by
  rw [FileStream.rest, h.pos, consumed]
  exact (List.suffix_iff_eq_drop.1 (encode_suffix h.suffix)).symm

theorem nodes (h : Remains all ts) : (streamAt all ts).nodes.toNat = depth ts := by
  have hsmall := h.small
  have hle := h.length_le
  have hdepth := depth_le_length ts
  rw [streamAt, UInt32.toNat_ofNat']
  exact Nat.mod_eq_of_lt (by omega)

theorem nodes_pos (h : Remains all ts) : 0 < (streamAt all ts).nodes ↔ 0 < depth ts := by
  rw [UInt32.lt_iff_toNat_lt, h.nodes]
  rfl

theorem leave_eq (hd : depth us = depth ts) :
    (streamAt all ts).leave (encode us) = streamAt all us := by
  rw [streamAt, streamAt, hd]
  rfl

theorem encode_ne_nil (h : Remains all ts) (hts : ts ≠ []) : (streamAt all ts).rest ≠ [] := by
  rw [h.rest]
  cases ts with
  | nil => exact absurd rfl hts
  | cons t ts =>
    have ht := one_le_length_bytes t
    rw [encode_cons]
    exact List.append_ne_nil_of_left_ne_nil (List.ne_nil_of_length_pos ht) _

theorem getU8_eq (h : Remains all ts) (hts : ts ≠ []) :
    getU8 (streamAt all ts) =
      (streamAt all ts).answer (takeByte (0 < depth ts) (encode ts)) := by
  have hne := h.encode_ne_nil hts
  rw [h.fits.getU8_eq (.inl hne), if_neg hne, h.rest]
  simp only [h.nodes_pos]

theorem prop_tail {b : UInt8} (h : Remains all (.prop b :: ts)) : Remains all ts :=
  h.of_suffix (List.suffix_cons _ _) h.nested.2

theorem start_tail (h : Remains all (.start :: ts)) : Remains all ts :=
  h.of_suffix (List.suffix_cons _ _) h.nested.2.2

theorem stop_tail (h : Remains all (.stop :: ts)) : Remains all ts :=
  h.of_suffix (List.suffix_cons _ _) h.nested

/-- A byte of the properties is read without its escape. -/
theorem getU8_prop {b : UInt8} (h : Remains all (.prop b :: ts)) :
    getU8 (streamAt all (.prop b :: ts)) = .ok (b, streamAt all ts) := by
  have hdepth : 0 < depth (.prop b :: ts) := h.nested.1
  have hread : Escape.read ESCAPE (encode (.prop b :: ts)) = some (b, encode ts) :=
    Escape.read_write (by decide) b _
  rw [h.getU8_eq (List.cons_ne_nil _ _), takeByte, if_pos (decide_eq_true hdepth), hread]
  exact congrArg (fun s => Except.ok (b, s)) (leave_eq rfl)

/-- A marker is not escaped. -/
theorem takeByte_marker (e : Bool) {b : UInt8} (hb : b ≠ ESCAPE) (l : List UInt8) :
    takeByte e (b :: l) = some (b, l) := by
  cases e with
  | false => rfl
  | true => exact Escape.read_cons_of_ne hb l

theorem getU8_start (h : Remains all (.start :: ts)) :
    getU8 (streamAt all (.start :: ts)) =
      .ok (START, (streamAt all (.start :: ts)).leave (encode ts)) := by
  rw [h.getU8_eq (List.cons_ne_nil _ _)]
  exact congrArg _ (takeByte_marker _ (by decide) _)

theorem getU8_stop (h : Remains all (.stop :: ts)) :
    getU8 (streamAt all (.stop :: ts)) =
      .ok (END, (streamAt all (.stop :: ts)).leave (encode ts)) := by
  rw [h.getU8_eq (List.cons_ne_nil _ _)]
  exact congrArg _ (takeByte_marker _ (by decide) _)

theorem eq_streamAt {s : FileStream} (h : Remains all ts) (hdata : s.data = encode all)
    (hpos : s.pos.toNat = consumed all ts) (hnodes : s.nodes = UInt32.ofNat (depth ts)) :
    s = streamAt all ts := by
  have heq : s.pos = (streamAt all ts).pos := UInt32.toNat_inj.1 (hpos.trans h.pos.symm)
  cases s
  simp only at hdata heq hnodes
  rw [hdata, heq, hnodes]
  rfl

theorem leave_pos (h : Remains all ts) (l : List UInt8) :
    ((streamAt all ts).leave l).pos.toNat = (encode all).length - l.length :=
  FileStream.leave_pos (s := streamAt all ts) h.small

theorem consumed_cons {t : Token} (h : Remains all (t :: ts)) :
    consumed all ts = consumed all (t :: ts) + t.bytes.length := by
  have hle := h.length_le
  rw [consumed, consumed]
  rw [encode_cons, List.length_append] at hle ⊢
  omega

/-- Behind a byte of the properties, `back` gets to where it begins if it is not escaped. -/
theorem back_prop {b : UInt8} (h : Remains all (.prop b :: ts)) :
    (streamAt all ts).backed.pos.toNat = consumed all (.prop b :: ts) ↔ special b = false := by
  have hcons := h.consumed_cons
  have hpos := h.prop_tail.pos
  have hone := one_le_length_bytes (.prop b)
  rw [backed_pos (by omega), hpos, hcons, Token.bytes]
  rcases hb : special b with _ | _
  · simp only [Escape.write_of_not_marked hb, List.length_singleton, iff_true]
    omega
  · simp only [Escape.write_of_marked hb, List.length_cons, List.length_nil, iff_false,
      Bool.true_eq_false]
    omega

/-- Behind a marker, `back` gets to where it begins. -/
theorem back_marker {b : UInt8} (h : Remains all ts) {l : List UInt8} (hts : encode ts = b :: l) :
    ((streamAt all ts).leave l).backed = streamAt all ts := by
  have hsuf : b :: l <:+ (streamAt all ts).data := hts ▸ encode_suffix h.suffix
  have hback := leave_back hsuf
  rw [← hts, ← h.rest, h.fits.leave_rest] at hback
  exact hback

theorem ne_nil_of_depth (h : 0 < depth ts) : ts ≠ [] := by
  rintro rfl
  exact absurd h (Nat.lt_irrefl 0)

end Remains

/-- The read answers `a`, and consumes what is in front of `us`. -/
def Exact (all us : List Token) (a : Answer) (result : Except Fault (Answer × FileStream)) : Prop :=
  ∃ t, result = .ok (a, t) ∧ t.pos.toNat = consumed all us

variable {all ts us : List Token} {a : Answer}

theorem not_exact_of_ne {a' : Answer} {t : FileStream} (h : a' ≠ a) :
    ¬Exact all us a (.ok (a', t)) := by
  rintro ⟨t, heq, -⟩
  cases heq
  exact h rfl

theorem exact_ok_iff {t : FileStream} :
    Exact all us a (.ok (a, t)) ↔ t.pos.toNat = consumed all us :=
  ⟨fun ⟨_, heq, hpos⟩ => by cases heq; exact hpos, fun h => ⟨t, rfl, h⟩⟩

theorem answered_of_ok {α : Type} {m : Reader α} {f : α → Answer} {s t : FileStream} {v : α}
    (h : m s = .ok (v, t)) : (do return f (← m) : Reader Answer) s = .ok (f v, t) :=
  bind_of_ok h

theorem answered_of_error {α : Type} {m : Reader α} {f : α → Answer} {s : FileStream} {e : Fault}
    (h : m s = .error e) : (do return f (← m) : Reader Answer) s = .error e := bind_of_error h

/-- A read does what it has to exactly if it is plain; then it leaves the stream where the tree
has `us` left. -/
structure Settled (r : Read) (all ts : List Token) (a : Answer) (us : List Token) : Prop where
  remains : Remains all us
  plain : r.Plain ts → r.perform (streamAt all ts) = .ok (a, streamAt all us)
  exact : Exact all us a (r.perform (streamAt all ts)) → r.Plain ts

/-! ### Properties -/

theorem takeProps_eq_some {n : Nat} {bs : List UInt8} (h : takeProps n ts = some (bs, us)) :
    ts = bs.map .prop ++ us ∧ bs.length = n := by
  induction n generalizing ts bs with
  | zero =>
    cases h
    exact ⟨rfl, rfl⟩
  | succ n ih =>
    rcases ts with _ | ⟨_ | b | _, ts⟩
    case cons.prop =>
      obtain ⟨⟨bs', us'⟩, hp, heq⟩ := Option.map_eq_some_iff.1 h
      cases heq
      obtain ⟨rfl, rfl⟩ := ih hp
      exact ⟨rfl, rfl⟩
    all_goals cases h

theorem Remains.props_tail {bs : List UInt8} (h : Remains all (bs.map .prop ++ us)) :
    Remains all us := by
  induction bs with
  | nil => exact h
  | cons b bs ih => exact ih h.prop_tail

theorem Remains.takeBytes_props {bs : List UInt8} (h : Remains all (bs.map .prop ++ us))
    (hn : 0 < bs.length) :
    takeBytes (0 < depth (bs.map .prop ++ us)) bs.length (encode (bs.map .prop ++ us)) =
      some (bs, encode us) := by
  have hdepth : 0 < depth (bs.map .prop ++ us) := by
    cases bs with
    | nil => exact absurd hn (Nat.lt_irrefl 0)
    | cons b bs => exact h.nested.1
  rw [takeBytes, if_pos (decide_eq_true hdepth), encode_append, encode_props]
  exact Escape.readMany_writeAll (by decide) bs _

theorem length_le_encode_props (bs : List UInt8) (us : List Token) :
    bs.length ≤ (encode (bs.map .prop ++ us)).length := by
  have hle := Escape.length_le_writeAll ESCAPE special bs
  rw [encode_append, encode_props, List.length_append]
  omega

theorem Remains.getNumber_props {bs : List UInt8} (h : Remains all (bs.map .prop ++ us))
    (hn : 0 < bs.length) :
    getNumber bs.length (streamAt all (bs.map .prop ++ us)) =
      .ok (Bytes.decode bs, streamAt all us) := by
  have hle := length_le_encode_props bs us
  have htake := h.takeBytes_props hn
  rw [h.fits.getNumber_eq, h.rest, if_neg (Nat.not_lt.2 hle), takeNumber]
  simp only [h.nodes_pos]
  rw [htake]
  exact congrArg (fun s => Except.ok (Bytes.decode bs, s))
    (Remains.leave_eq (depth_props_append bs us).symm)

/-- A number is always read as it was written. -/
theorem settled_number {r : Read} {n : Nat} (hn : 0 < n) (hplain : r.Plain ts)
    (hperform : r.perform = do return .number (← getNumber n)) (h : Remains all ts)
    (hf : followNumber n ts = some (a, us)) : Settled r all ts a us := by
  obtain ⟨⟨bs, us'⟩, hp, heq⟩ := Option.map_eq_some_iff.1 hf
  cases heq
  obtain ⟨rfl, rfl⟩ := takeProps_eq_some hp
  refine ⟨h.props_tail, fun _ => ?_, fun _ => hplain⟩
  rw [hperform]
  exact answered_of_ok (h.getNumber_props hn)

theorem settled_getU8 (h : Remains all ts) (hf : Read.getU8.follow ts = some (a, us)) :
    Settled .getU8 all ts a us := by
  obtain ⟨⟨bs, us'⟩, hp, heq⟩ := Option.map_eq_some_iff.1 hf
  cases heq
  obtain ⟨rfl, hlen⟩ := takeProps_eq_some hp
  obtain ⟨b, rfl⟩ := List.length_eq_one_iff.1 hlen
  refine ⟨h.prop_tail, fun _ => ?_, fun _ => trivial⟩
  exact answered_of_ok h.getU8_prop

/-- Of a string without escapes the bytes are copied. -/
theorem Remains.stringOf_of_plain {str : List UInt8} (h : Remains all (str.map .prop ++ us))
    (hsmall : str.length < 8192) (hspecial : ∀ b ∈ str, special b = false) :
    (streamAt all (str.map .prop ++ us)).stringOf str.length = .ok (str, streamAt all us) := by
  have hrest : (streamAt all (str.map .prop ++ us)).rest = str ++ encode us := by
    rw [h.rest, encode_append, encode_props, Escape.writeAll_of_not_marked hspecial]
  rw [stringOf, hrest, List.take_left, List.drop_left]
  by_cases h0 : str.length = 0
  · rw [if_pos h0, List.length_eq_zero_iff.1 h0]
    rfl
  · rw [if_neg h0, if_pos ⟨hsmall, by simp⟩]
    exact congrArg (fun s => Except.ok (str, s))
      (Remains.leave_eq (depth_props_append str us).symm)

/-- With an escape in the string it ends too early. -/
theorem Remains.plain_of_stringOf {str v : List UInt8} {t : FileStream}
    (h : Remains all (str.map .prop ++ us))
    (ht : (streamAt all (str.map .prop ++ us)).stringOf str.length = .ok (v, t))
    (hpos : t.pos.toNat = consumed all us) :
    str.length < 8192 ∧ ∀ b ∈ str, special b = false := by
  rw [stringOf] at ht
  split at ht
  case isTrue h0 =>
    rw [List.length_eq_zero_iff.1 h0]
    exact ⟨by decide, fun b hb => absurd hb List.not_mem_nil⟩
  case isFalse h0 =>
    split at ht
    case isTrue hc =>
      cases ht
      have hle := h.length_le
      refine ⟨hc.1, (Escape.length_writeAll_eq_iff ESCAPE).1 ?_⟩
      rw [h.leave_pos, h.rest, List.length_drop, consumed] at hpos
      rw [encode_append, encode_props, List.length_append] at hpos hle
      have hlen := Escape.length_le_writeAll ESCAPE special str
      omega
    case isFalse => cases ht

/-- A string is read as it was written if nothing in it is escaped. -/
theorem settled_getString (h : Remains all ts) (hf : Read.getString.follow ts = some (a, us)) :
    Settled .getString all ts a us := by
  obtain ⟨⟨len, ts₁⟩, hp, hf'⟩ := Option.bind_eq_some_iff.1 hf
  obtain ⟨⟨str, us₁⟩, hq, heq⟩ := Option.map_eq_some_iff.1 hf'
  obtain ⟨rfl, rfl⟩ := Prod.mk.inj heq
  have hiff : Read.getString.Plain ts ↔ str.length < 8192 ∧ ∀ b ∈ str, special b = false := by
    refine ⟨fun hp => hp str us₁ hf, fun hp str' us' hf' => ?_⟩
    rw [hf] at hf'
    cases hf'
    exact hp
  obtain ⟨rfl, hlen⟩ := takeProps_eq_some hp
  obtain ⟨rfl, hstr⟩ := takeProps_eq_some hq
  have h₁ := h.props_tail
  have hu16 : getU16 (streamAt all (len.map .prop ++ (str.map .prop ++ us₁))) =
      .ok (str.length, streamAt all (str.map .prop ++ us₁)) := by
    have hnum := h.getNumber_props (by omega)
    rw [hlen, ← hstr] at hnum
    exact hnum
  have hle := length_le_encode_props str us₁
  have hget := getString_of_getU16 h₁.fits (.inl (by rw [h₁.rest]; exact hle)) hu16
  refine ⟨h₁.props_tail, fun hp => ?_, fun hex => hiff.2 ?_⟩
  · have hp := hiff.1 hp
    exact answered_of_ok (hget.trans (h₁.stringOf_of_plain hp.1 hp.2))
  · obtain ⟨t, ht, hpos⟩ := hex
    obtain ⟨v, hv, -⟩ := answered_eq_ok ht
    exact h₁.plain_of_stringOf (hget.symm.trans hv) hpos

/-! ### Tests -/

section Tests

variable {s t u : FileStream} {b c : UInt8}

theorem perform_isProp (h : getU8 s = .ok (b, t)) (prop : UInt8) (toNext : Bool) :
    (Read.isProp prop toNext).perform s =
      .ok (.flag (b = prop), if b = prop ∧ toNext then t else t.backed) :=
  answered_of_ok (isProp_of_getU8 h prop toNext)

theorem perform_endNode (h : getU8 s = .ok (b, t)) :
    Read.endNode.perform s =
      .ok (.flag (b = END), if b = END then { t with nodes := t.nodes - 1 } else t.backed) :=
  answered_of_ok (endNode_of_getU8 h)

/-- At a marker, `back` gets to where the test began. -/
theorem Remains.back_at {m : Token} (h : Remains all (m :: ts)) (hm : m.bytes = [b]) :
    ((streamAt all (m :: ts)).leave (encode ts)).backed = streamAt all (m :: ts) :=
  h.back_marker (by rw [encode_cons, hm]; rfl)

theorem Remains.isProp_marker {m : Token} (h : Remains all (m :: ts)) (hm : m.bytes = [b])
    (hget : getU8 (streamAt all (m :: ts)) = .ok (b, (streamAt all (m :: ts)).leave (encode ts)))
    {prop : UInt8} {toNext : Bool}
    (hplain : (Read.isProp prop toNext).Plain (m :: ts) ↔ prop ≠ b) :
    Settled (.isProp prop toNext) all (m :: ts) (.flag false) (m :: ts) := by
  have hperform := perform_isProp hget prop toNext
  refine ⟨h, fun hp => ?_, fun hex => hplain.2 fun hc => ?_⟩
  · have hne : b ≠ prop := Ne.symm (hplain.1 hp)
    rw [if_neg fun hc => hne hc.1, h.back_at hm, decide_eq_false hne] at hperform
    exact hperform
  · rw [hperform, decide_eq_true hc.symm] at hex
    exact not_exact_of_ne (by decide) hex

/-- At a byte of the properties, a test that does not step over it. -/
theorem Remains.settled_back {r : Read} (h : Remains all (.prop b :: ts)) {a : Answer}
    (hplain : r.Plain (.prop b :: ts) ↔ special b = false)
    (hperform : r.perform (streamAt all (.prop b :: ts)) = .ok (a, (streamAt all ts).backed)) :
    Settled r all (.prop b :: ts) a (.prop b :: ts) := by
  refine ⟨h, fun hp => ?_, fun hex => hplain.2 ?_⟩
  · have hpos := h.back_prop.2 (hplain.1 hp)
    have hsame : (streamAt all ts).backed = streamAt all (.prop b :: ts) :=
      h.eq_streamAt rfl hpos rfl
    rw [hperform, hsame]
  · rw [hperform] at hex
    exact h.back_prop.1 (exact_ok_iff.1 hex)

/-- A test that takes an escaped byte for something else. -/
theorem Remains.settled_wrong {r : Read} {a' : Answer} (h : Remains all us) (hne : a' ≠ a)
    (hplain : ¬r.Plain ts) (hperform : r.perform (streamAt all ts) = .ok (a', t)) :
    Settled r all ts a us := by
  refine ⟨h, fun hp => absurd hp hplain, fun hex => ?_⟩
  rw [hperform] at hex
  exact absurd hex (not_exact_of_ne hne)

theorem settled_isProp {prop : UInt8} {toNext : Bool} (h : Remains all ts)
    (hf : (Read.isProp prop toNext).follow ts = some (a, us)) :
    Settled (.isProp prop toNext) all ts a us := by
  rcases ts with _ | ⟨_ | b | _, ts⟩
  · cases hf
  case cons.start =>
    cases hf
    exact h.isProp_marker rfl h.getU8_start Iff.rfl
  case cons.stop =>
    cases hf
    exact h.isProp_marker rfl h.getU8_stop Iff.rfl
  case cons.prop =>
    obtain ⟨rfl, rfl⟩ := Prod.mk.inj (Option.some.inj hf)
    have hperform := perform_isProp h.getU8_prop prop toNext
    by_cases hstep : b = prop ∧ toNext = true
    · rw [if_pos hstep] at hperform ⊢
      exact ⟨h.prop_tail, fun _ => hperform, fun _ _ => hstep⟩
    · rw [if_neg hstep] at hperform ⊢
      refine h.settled_back ⟨fun hp => ?_, fun hb hc => ?_⟩ hperform
      · exact Bool.eq_false_iff.2 fun hb => hstep (hp hb)
      · rw [hb] at hc
        cases hc

theorem settled_endNode (h : Remains all ts) (hf : Read.endNode.follow ts = some (a, us)) :
    Settled .endNode all ts a us := by
  rcases ts with _ | ⟨_ | b | _, ts⟩
  · cases hf
  case cons.start =>
    cases hf
    have hperform := perform_endNode h.getU8_start
    rw [if_neg (by decide), h.back_at rfl] at hperform
    exact ⟨h, fun _ => hperform, fun _ => trivial⟩
  case cons.stop =>
    obtain ⟨rfl, rfl⟩ := Prod.mk.inj (Option.some.inj hf)
    have hperform := perform_endNode h.getU8_stop
    have hnodes : UInt32.ofNat (depth ts + 1) - 1 = UInt32.ofNat (depth ts) := by
      rw [UInt32.ofNat_add]
      exact UInt32.add_sub_cancel _ _
    refine ⟨h.stop_tail, fun _ => ?_, fun _ => trivial⟩
    rw [if_pos rfl] at hperform
    refine hperform.trans (congrArg (fun s => Except.ok (Answer.flag true, s)) ?_)
    exact h.stop_tail.eq_streamAt rfl (h.leave_pos _) hnodes
  case cons.prop =>
    obtain ⟨rfl, rfl⟩ := Prod.mk.inj (Option.some.inj hf)
    have hperform := perform_endNode h.getU8_prop
    by_cases hb : b = END
    · rw [decide_eq_true hb] at hperform
      refine h.settled_wrong (by decide) (fun hp : special b = false => ?_) hperform
      rw [hb] at hp
      exact absurd hp (by decide)
    · rw [if_neg hb, decide_eq_false hb] at hperform
      exact h.settled_back Iff.rfl hperform

/-! ### `startNode` -/

theorem perform_startNode_of_ne (h : getU8 s = .ok (b, t)) (hb : b ≠ START) (type : UInt8) :
    (Read.startNode type).perform s = .ok (.flag false, t.backed) :=
  answered_of_ok (startNode_of_ne h hb type)

theorem perform_startNode_zero (h : getU8 s = .ok (START, t)) :
    (Read.startNode 0).perform s = .ok (.flag true, { t with nodes := t.nodes + 1 }) :=
  answered_of_ok (startNode_zero h)

theorem perform_startNode (h : getU8 s = .ok (START, t)) (hu : getU8 t = .ok (c, u))
    {type : UInt8} (ht : type ≠ 0) :
    (Read.startNode type).perform s = .ok (.flag (c = type),
      if c = type then { u with nodes := u.nodes + 1 } else u.backed.backed) :=
  answered_of_ok (startNode_of_getU8 h hu ht)

/-- An escaped `START` among the properties is taken for the start of a node. -/
theorem Remains.startNode_escaped (h : Remains all (.prop START :: ts)) (type : UInt8) :
    ¬Exact all (.prop START :: ts) (.flag false)
      ((Read.startNode type).perform (streamAt all (.prop START :: ts))) := by
  have hget := h.getU8_prop
  by_cases htype : type = 0
  · rw [htype, perform_startNode_zero hget]
    exact not_exact_of_ne (by decide)
  · rcases hu : getU8 (streamAt all ts) with e | ⟨c, u⟩
    · have herr : (Read.startNode type).perform (streamAt all (.prop START :: ts)) = .error e :=
        answered_of_error (startNode_of_error hget hu htype)
      rw [herr]
      rintro ⟨t, heq, -⟩
      cases heq
    · rw [perform_startNode hget hu htype]
      by_cases hc : c = type
      · rw [decide_eq_true hc]
        exact not_exact_of_ne (by decide)
      · -- Three bytes at least were read, and `back` was called twice.
        have htail := h.prop_tail
        have hne := htail.encode_ne_nil (Remains.ne_nil_of_depth h.nested.1)
        have hlt := (htail.fits.getU8_advances (.inl hne) hu).2
        have hcons := h.consumed_cons
        have hbytes : (Token.prop START).bytes.length = 2 := rfl
        rw [htail.pos] at hlt
        have hback := backed_pos (s := u) (by omega)
        have hback' := backed_pos (s := u.backed) (by omega)
        rw [if_neg hc, decide_eq_false hc, exact_ok_iff]
        omega

theorem Remains.startNode_prop (h : Remains all (.prop b :: ts)) (type : UInt8) :
    Settled (.startNode type) all (.prop b :: ts) (.flag false) (.prop b :: ts) := by
  by_cases hb : b = START
  · subst hb
    refine ⟨h, fun hp : special START = false => absurd hp (by decide), fun hex => ?_⟩
    exact absurd hex (h.startNode_escaped type)
  · exact h.settled_back Iff.rfl (perform_startNode_of_ne h.getU8_prop hb type)

/-- The node is entered. -/
theorem Remains.enter (h : Remains all (.start :: ts)) (hu : Remains all us)
    (hd : depth us = depth ts) :
    ({ (streamAt all (.start :: ts)).leave (encode us) with
      nodes := (streamAt all (.start :: ts)).nodes + 1 } : FileStream) = streamAt all us := by
  have hpos := h.nested.1
  refine hu.eq_streamAt rfl (h.leave_pos _) ?_
  change UInt32.ofNat (depth ts - 1) + 1 = _
  rw [hd, ← Nat.sub_add_cancel hpos, UInt32.ofNat_add]
  rfl

theorem Remains.getU8_behind_start (h : Remains all (.start :: ts)) :
    getU8 ((streamAt all (.start :: ts)).leave (encode ts)) =
      (streamAt all (.start :: ts)).answer
        (takeByte (0 < depth (.start :: ts)) (encode ts)) := by
  have hsuf : encode ts <:+ encode all := encode_suffix h.start_tail.suffix
  have hfits := h.fits.leave (encode ts)
  have hrest : ((streamAt all (.start :: ts)).leave (encode ts)).rest = encode ts :=
    rest_leave h.small hsuf
  have hne := h.start_tail.encode_ne_nil (Remains.ne_nil_of_depth h.nested.1)
  rw [h.start_tail.rest] at hne
  rw [hfits.getU8_eq (.inl (by rwa [hrest])), hrest, if_neg hne, leave_nodes]
  simp only [h.nodes_pos]
  rfl

/-- Either the type of the node is unescaped, or it needs no escape. -/
theorem Remains.getU8_type {type : UInt8} (h : Remains all (.start :: .prop type :: ts))
    (hd : 0 < depth (.start :: .prop type :: ts) ∨ special type = false) :
    getU8 ((streamAt all (.start :: .prop type :: ts)).leave (encode (.prop type :: ts))) =
      .ok (type, (streamAt all (.start :: .prop type :: ts)).leave (encode ts)) := by
  have htake : takeByte (0 < depth (.start :: .prop type :: ts)) (encode (.prop type :: ts)) =
      some (type, encode ts) := by
    rcases hd with hd | hd
    · rw [takeByte, if_pos (decide_eq_true hd)]
      exact Escape.read_write (by decide) type _
    · have hne : type ≠ ESCAPE := by
        rintro rfl
        cases hd
      rw [encode_cons, Token.bytes, Escape.write_of_not_marked hd]
      exact takeByte_marker _ hne _
  rw [h.getU8_behind_start, htake]
  rfl

/-- The escaped type of the root: its escape is read for the type. -/
theorem Remains.getU8_root_type {type : UInt8} (h : Remains all (.start :: .prop type :: ts))
    (hd : depth (.start :: .prop type :: ts) = 0) (hs : special type = true) :
    getU8 ((streamAt all (.start :: .prop type :: ts)).leave (encode (.prop type :: ts))) =
      .ok (ESCAPE, (streamAt all (.start :: .prop type :: ts)).leave (type :: encode ts)) := by
  have hzero : ¬0 < depth (.start :: .prop type :: ts) := by omega
  rw [h.getU8_behind_start, decide_eq_false hzero, encode_cons, Token.bytes,
    Escape.write_of_marked hs]
  rfl

/-- Two steps back from behind the bytes `l`. -/
theorem Remains.back_two (h : Remains all ts) {l : List UInt8}
    (hl : l.length + 2 ≤ (encode ts).length) :
    ((streamAt all ts).leave l).backed.backed.pos.toNat = (encode all).length - l.length - 2 := by
  have hle := h.length_le
  have hpos := h.leave_pos l
  have hback := backed_pos (s := (streamAt all ts).leave l) (by omega)
  have hback' := backed_pos (s := ((streamAt all ts).leave l).backed) (by omega)
  omega

theorem Remains.startNode_inner {type t : UInt8} (h : Remains all (.start :: .prop t :: ts))
    (htype : type ≠ 0) (hd : 0 < depth (.start :: .prop t :: ts) ∨ special t = false)
    (hf : (Read.startNode type).follow (.start :: .prop t :: ts) = some (a, us)) :
    Settled (.startNode type) all (.start :: .prop t :: ts) a us := by
  have hperform := perform_startNode h.getU8_start (h.getU8_type hd) htype
  have hplain : (Read.startNode type).Plain (.start :: .prop t :: ts) ↔
      special t = false ∨ type = t := by
    change (type = 0 ∨ special t = false ∨ ite _ _ _) ↔ _
    by_cases h0 : depth (.start :: .prop t :: ts) = 0
    · have hs := hd.resolve_left (by omega)
      simp [hs]
    · simp [h0, htype]
  rw [follow_startNode htype] at hf
  obtain ⟨rfl, rfl⟩ := Prod.mk.inj (Option.some.inj hf)
  by_cases ht : t = type
  · rw [if_pos ht] at hperform ⊢
    have hall := h.start_tail.prop_tail
    refine ⟨hall, fun _ => ?_, fun _ => hplain.2 (.inr ht.symm)⟩
    exact hperform.trans (congrArg (fun s => Except.ok (Answer.flag (t = type), s))
      (h.enter hall rfl))
  · rw [if_neg ht] at hperform ⊢
    have hbytes := one_le_length_bytes (.prop t)
    have hle := h.length_le
    have hlen : (encode (.start :: .prop t :: ts)).length =
        1 + ((Token.prop t).bytes.length + (encode ts).length) := by
      simp only [encode_cons, List.length_append]
      rfl
    have hback := h.back_two (l := encode ts) (by omega)
    have hsame : (Token.prop t).bytes.length = 1 ↔ special t = false := by
      rw [Token.bytes, Escape.write]
      cases special t <;> simp
    have hiff :
        ((streamAt all (.start :: .prop t :: ts)).leave (encode ts)).backed.backed.pos.toNat =
          consumed all (.start :: .prop t :: ts) ↔ special t = false := by
      rw [← hsame, hback, consumed]
      omega
    refine ⟨h, fun hp => ?_, fun hex => hplain.2 (.inl ?_)⟩
    · have hs := (hplain.1 hp).resolve_right (Ne.symm ht)
      exact hperform.trans (congrArg (fun s => Except.ok (Answer.flag (t = type), s))
        (h.eq_streamAt rfl (hiff.2 hs) rfl))
    · rw [hperform] at hex
      exact hiff.1 (exact_ok_iff.1 hex)

theorem Remains.startNode_root {type t : UInt8} (h : Remains all (.start :: .prop t :: ts))
    (htype : type ≠ 0) (hd : depth (.start :: .prop t :: ts) = 0) (hs : special t = true)
    (hf : (Read.startNode type).follow (.start :: .prop t :: ts) = some (a, us)) :
    Settled (.startNode type) all (.start :: .prop t :: ts) a us := by
  have hperform := perform_startNode h.getU8_start (h.getU8_root_type hd hs) htype
  have hplain : (Read.startNode type).Plain (.start :: .prop t :: ts) ↔
      type ≠ t ∧ type ≠ ESCAPE := by
    change (type = 0 ∨ special t = false ∨ ite _ _ _) ↔ _
    simp [hd, htype, hs]
  have hle := h.length_le
  have hlen : (encode (.start :: .prop t :: ts)).length = 3 + (encode ts).length := by
    simp only [encode_cons, List.length_append, Token.bytes, Escape.write_of_marked hs]
    simp only [List.length_cons, List.length_nil]
    omega
  rw [follow_startNode htype] at hf
  obtain ⟨rfl, rfl⟩ := Prod.mk.inj (Option.some.inj hf)
  by_cases hesc : ESCAPE = type
  · have hnot : ¬(Read.startNode type).Plain (.start :: .prop t :: ts) :=
      fun hp => (hplain.1 hp).2 hesc.symm
    rw [if_pos hesc, decide_eq_true hesc] at hperform
    by_cases ht : t = type
    · -- The answer is right, but the type itself was not consumed.
      rw [if_pos ht, decide_eq_true ht]
      refine ⟨h.start_tail.prop_tail, fun hp => absurd hp hnot, fun hex => ?_⟩
      rw [hperform] at hex
      have hpos := exact_ok_iff.1 hex
      have hleave := h.leave_pos (t :: encode ts)
      rw [List.length_cons] at hleave
      rw [consumed] at hpos
      change ((streamAt all (.start :: .prop t :: ts)).leave (t :: encode ts)).pos.toNat = _ at hpos
      omega
    · rw [if_neg ht, decide_eq_false ht]
      exact h.settled_wrong (by decide) hnot hperform
  · rw [if_neg hesc, decide_eq_false hesc] at hperform
    by_cases ht : t = type
    · rw [if_pos ht, decide_eq_true ht]
      exact h.start_tail.prop_tail.settled_wrong (by decide)
        (fun hp => (hplain.1 hp).1 ht.symm) hperform
    · rw [if_neg ht, decide_eq_false ht]
      have hback := h.back_two (l := t :: encode ts) (by rw [List.length_cons]; omega)
      have hpos : ((streamAt all (.start :: .prop t :: ts)).leave
          (t :: encode ts)).backed.backed.pos.toNat = consumed all (.start :: .prop t :: ts) := by
        rw [hback, consumed, List.length_cons]
        omega
      refine ⟨h, fun _ => ?_, fun _ => hplain.2 ⟨Ne.symm ht, Ne.symm hesc⟩⟩
      exact hperform.trans (congrArg (fun s => Except.ok (Answer.flag false, s))
        (h.eq_streamAt rfl hpos rfl))

theorem settled_startNode {type : UInt8} (h : Remains all ts)
    (hf : (Read.startNode type).follow ts = some (a, us)) :
    Settled (.startNode type) all ts a us := by
  rcases ts with _ | ⟨_ | b | _, ts⟩
  · cases hf
  case cons.start =>
    obtain ⟨t, ts', rfl⟩ := h.nested.2.1
    by_cases htype : type = 0
    · subst htype
      obtain ⟨rfl, rfl⟩ := Prod.mk.inj (Option.some.inj hf)
      refine ⟨h.start_tail, fun _ => ?_, fun _ => .inl rfl⟩
      exact (perform_startNode_zero h.getU8_start).trans
        (congrArg (fun s => Except.ok (Answer.flag true, s)) (h.enter h.start_tail rfl))
    · by_cases hd : 0 < depth (.start :: .prop t :: ts') ∨ special t = false
      · exact h.startNode_inner htype hd hf
      · rw [not_or] at hd
        exact h.startNode_root htype (by omega) (by simpa using hd.2) hf
  case cons.stop =>
    obtain ⟨rfl, rfl⟩ := Prod.mk.inj (Option.some.inj hf)
    have hperform := perform_startNode_of_ne h.getU8_stop (by decide) type
    rw [h.back_at rfl] at hperform
    exact ⟨h, fun _ => hperform, fun _ => trivial⟩
  case cons.prop =>
    obtain ⟨rfl, rfl⟩ := Prod.mk.inj (Option.some.inj hf)
    exact h.startNode_prop type

/-- One read along the tree. -/
theorem settled {r : Read} (h : Remains all ts) (hf : r.follow ts = some (a, us)) :
    Settled r all ts a us := by
  cases r with
  | getU8 => exact settled_getU8 h hf
  | getU16 => exact settled_number (by decide) trivial rfl h hf
  | getU32 => exact settled_number (by decide) trivial rfl h hf
  | getU64 => exact settled_number (by decide) trivial rfl h hf
  | getString => exact settled_getString h hf
  | isProp prop toNext => exact settled_isProp h hf
  | startNode type => exact settled_startNode h hf
  | endNode => exact settled_endNode h hf

end Tests

/-! ## Runs -/

/-- What a run has to give: the values of the tree, each with the number of bytes consumed. -/
def expected (all : List Token) (script : List (Answer × List Token)) : List (Answer × Nat) :=
  script.map fun p => (p.1, consumed all p.2)

/-- The run gives these results. -/
def Gives (rs : List Read) (s : FileStream) (l : List (Answer × Nat)) : Prop :=
  ∃ t, run rs s = .ok (l, t)

theorem gives_cons {s : FileStream} {r : Read} {rs : List Read} {p : Answer × Nat}
    {l : List (Answer × Nat)} :
    Gives (r :: rs) s (p :: l) ↔
      ∃ t, r.perform s = .ok (p.1, t) ∧ t.pos.toNat = p.2 ∧ Gives rs t l := by
  constructor
  · rintro ⟨u, hu⟩
    rcases hr : r.perform s with e | ⟨a', t⟩
    · rw [run_cons_of_error hr] at hu
      cases hu
    · rw [run_cons_of_ok hr] at hu
      rcases hl : run rs t with e | ⟨l', v⟩
      · rw [bind_of_error hl] at hu
        cases hu
      · rw [bind_of_ok hl] at hu
        cases hu
        exact ⟨t, rfl, rfl, _, hl⟩
  · rintro ⟨t, hr, hpos, u, hu⟩
    refine ⟨u, ?_⟩
    rw [run_cons_of_ok hr, bind_of_ok hu, hpos]
    rfl

/-- A run gives the values of the tree, and consumes exactly their encodings, if and only if
its reads are plain. -/
theorem gives_iff {rs : List Read} {script : List (Answer × List Token)} (h : Remains all ts)
    (hf : follow rs ts = some script) :
    Gives rs (streamAt all ts) (expected all script) ↔ AllPlain rs ts := by
  induction rs generalizing ts script with
  | nil =>
    cases hf
    exact iff_of_true ⟨_, rfl⟩ trivial
  | cons r rs ih =>
    obtain ⟨⟨a, us⟩, hr, hf⟩ := Option.bind_eq_some_iff.1 hf
    obtain ⟨script', hrs, rfl⟩ := Option.map_eq_some_iff.1 hf
    have hs := settled h hr
    have hrest := ih hs.remains hrs
    have hall : AllPlain (r :: rs) ts ↔ r.Plain ts ∧ AllPlain rs us := by
      refine and_congr_right fun _ => ⟨fun hp => hp a us hr, fun hp a' us' hr' => ?_⟩
      rw [hr] at hr'
      cases hr'
      exact hp
    rw [hall, expected, List.map_cons]
    constructor
    · intro hg
      obtain ⟨t, ht, hpos, hg⟩ := gives_cons.1 hg
      have hp := hs.exact ⟨t, ht, hpos⟩
      have heq := (hs.plain hp).symm.trans ht
      cases heq
      exact ⟨hp, hrest.1 hg⟩
    · rintro ⟨hp, hps⟩
      exact gives_cons.2 ⟨_, hs.plain hp, hs.remains.pos, hrest.2 hps⟩

/-- The stream at its beginning. -/
def openStream (data : List UInt8) : FileStream := ⟨data, 0, 0⟩

theorem streamAt_tokens (t : Node) :
    streamAt (tokens t) (tokens t) = openStream (encode (tokens t)) := by
  have hd := (tokens_append t [] trivial).2
  rw [List.append_nil] at hd
  rw [streamAt, Nat.sub_self, hd]
  rfl

/-- Reads along a tree, of less than 2 ^ 32 bytes, give its values and consume their encodings
exactly if they are plain; and reads of any bytes stay inside of these exactly if they need no
byte behind them. -/
theorem reads_right_iff (rs : List Read) :
    (∀ t : Node, (encode (tokens t)).length < 2 ^ 32 →
      ∀ script, follow rs (tokens t) = some script →
        (Gives rs (openStream (encode (tokens t))) (expected (tokens t) script) ↔
          AllPlain rs (tokens t))) ∧
    ∀ data : List UInt8, data.length + 8192 ≤ 2 ^ 32 →
      (run rs (openStream data) ≠ .error .outside ↔ AllInside rs (openStream data)) := by
  refine ⟨fun t hsmall script hf => ?_, fun data hsmall => ?_⟩
  · rw [← streamAt_tokens]
    exact gives_iff ⟨hsmall, List.suffix_rfl, nested_tokens t⟩ hf
  · have hlt : (openStream data).data.length < 2 ^ 32 := by
      change data.length < _
      omega
    exact run_inside_iff ⟨hlt, Nat.zero_le _⟩ (show Small (openStream data) from hsmall) rs

theorem reads_right_tile :
    Gives [.startNode 5, .getU8, .endNode] (openStream [START, 5, ESCAPE, END, END])
      [(.flag true, 2), (.number 255, 4), (.flag true, 5)] :=
  ((reads_right_iff _).1 (.node ⟨5, [END]⟩ []) (by decide)
    [(.flag true, [.prop END, .stop]), (.number 255, [.stop]), (.flag true, [])] (by decide)).2
    ⟨.inr (.inl rfl), fun _ _ h => by
      cases h
      exact ⟨trivial, fun _ _ h => by cases h; exact ⟨trivial, fun _ _ _ => trivial⟩⟩⟩

/-- A tile whose first coordinate is the byte `START`: a test for a node takes it for one. -/
theorem escaped_taken_for_start :
    follow [.startNode 5, .startNode 0] (tokens (.node ⟨5, [START]⟩ [])) =
      some [(.flag true, [.prop START, .stop]), (.flag false, [.prop START, .stop])] ∧
    run [.startNode 5, .startNode 0] (openStream (encode (tokens (.node ⟨5, [START]⟩ [])))) =
      .ok ([(.flag true, 2), (.flag true, 4)], ⟨[START, 5, ESCAPE, START, END], 4, 2⟩) ∧
    ¬Gives [.startNode 5, .startNode 0] (openStream (encode (tokens (.node ⟨5, [START]⟩ []))))
      (expected (tokens (.node ⟨5, [START]⟩ []))
        [(.flag true, [.prop START, .stop]), (.flag false, [.prop START, .stop])]) := by
  have hrun : run [.startNode 5, .startNode 0]
      (openStream (encode (tokens (.node ⟨5, [START]⟩ [])))) =
      .ok ([(.flag true, 2), (.flag true, 4)], ⟨[START, 5, ESCAPE, START, END], 4, 2⟩) := by
    decide
  have hne : [(Answer.flag true, 2), (Answer.flag true, 4)] ≠
      expected (tokens (.node ⟨5, [START]⟩ []))
        [(.flag true, [.prop START, .stop]), (.flag false, [.prop START, .stop])] := by
    decide
  refine ⟨by decide, hrun, fun ⟨t, ht⟩ => hne ?_⟩
  rw [hrun] at ht
  exact congrArg Prod.fst (Except.ok.inj ht)

end Canary.Map
