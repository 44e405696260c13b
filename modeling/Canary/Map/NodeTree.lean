import Canary.Lib.RoseTree
import Canary.Map.FileReads

/-!
# Trees of nodes

A map file is a tree of nodes, written between markers and with its properties escaped
(`tokens`, `encode`). A sequence of reads follows the tree if what it asks for is there:
`follow` gives the values of the tree and what remains of it. `Read.Plain` tells the reads that
`FileStream` does right (see `Canary.Map.NodeReads`).
-/

namespace Canary.Map

open OTB FileStream

/-- The bytes of the properties that are escaped. -/
def special (b : UInt8) : Bool := b == ESCAPE || b == START || b == END

inductive Token where
  | start
  | prop (b : UInt8)
  | stop
  deriving DecidableEq

def Token.bytes : Token → List UInt8
  | start => [START]
  | prop b => Escape.write ESCAPE special b
  | stop => [END]

def encode (ts : List Token) : List UInt8 := ts.flatMap Token.bytes

/-- The type of a node and its properties. -/
structure NodeData where
  type : UInt8
  props : List UInt8

abbrev Node := RoseTree NodeData

mutual

/-- What is written for a node. The type is the first byte of the properties. -/
def tokens : RoseTree NodeData → List Token
  | .node d cs => .start :: ((d.type :: d.props).map .prop ++ forestTokens cs ++ [.stop])

def forestTokens : List (RoseTree NodeData) → List Token
  | [] => []
  | t :: ts => tokens t ++ forestTokens ts

end

/-! ## Following the tree -/

/-- The next `n` bytes of the properties. -/
def takeProps : Nat → List Token → Option (List UInt8 × List Token)
  | 0, ts => some ([], ts)
  | n + 1, .prop b :: ts => (takeProps n ts).map fun p => (b :: p.1, p.2)
  | _ + 1, _ => none

def followNumber (n : Nat) (ts : List Token) : Option (Answer × List Token) :=
  (takeProps n ts).map fun p => (.number (Bytes.decode p.1), p.2)

/-- What a read has to answer where `ts` remains of the tree, and what remains then; `none` if
it does not follow the tree. A test that fails leaves everything. -/
def Read.follow : Read → List Token → Option (Answer × List Token)
  | getU8, ts => followNumber 1 ts
  | getU16, ts => followNumber 2 ts
  | getU32, ts => followNumber 4 ts
  | getU64, ts => followNumber 8 ts
  | getString, ts => (takeProps 2 ts).bind fun p =>
      (takeProps (Bytes.decode p.1) p.2).map fun q => (.text q.1, q.2)
  | isProp prop toNext, .prop b :: ts =>
      some (.flag (b = prop), if b = prop ∧ toNext then ts else .prop b :: ts)
  | startNode type, .start :: .prop t :: ts =>
      if type = 0 then some (.flag true, .prop t :: ts)
      else some (.flag (t = type), if t = type then ts else .start :: .prop t :: ts)
  | endNode, .stop :: ts => some (.flag true, ts)
  | _, [] => none
  | _, t :: ts => some (.flag false, t :: ts)

/-- How many nodes are open. -/
def depth : List Token → Nat
  | [] => 0
  | .start :: ts => depth ts - 1
  | .prop _ :: ts => depth ts
  | .stop :: ts => depth ts + 1

/-- The read is one that the stream does right.

* A test at an escaped byte of the properties: only `isProp`, if it asks for this byte and
  steps over it. At a marker it must not ask for the byte of the marker.
* `startNode` at a node whose type is escaped: only if it asks for this type, or any. The stream
  does not unescape the type of the root: there it must not ask for this type, nor for the
  escape.
* A string is shorter than 8192 bytes and has none that is escaped. -/
def Read.Plain : Read → List Token → Prop
  | getString, ts => ∀ str ts', getString.follow ts = some (.text str, ts') →
      str.length < 8192 ∧ ∀ b ∈ str, special b = false
  | isProp prop toNext, .prop b :: _ => special b = true → b = prop ∧ toNext = true
  | isProp prop _, .start :: _ => prop ≠ START
  | isProp prop _, .stop :: _ => prop ≠ END
  | startNode _, .prop b :: _ => special b = false
  | startNode type, .start :: .prop t :: ts => type = 0 ∨ special t = false ∨
      if depth (.start :: .prop t :: ts) = 0 then type ≠ t ∧ type ≠ ESCAPE else type = t
  | endNode, .prop b :: _ => special b = false
  | _, _ => True

/-- What the reads have to answer, one after the other, and what remains after each. -/
def follow : List Read → List Token → Option (List (Answer × List Token))
  | [], _ => some []
  | r :: rs, ts => (r.follow ts).bind fun p => (follow rs p.2).map (p :: ·)

def AllPlain : List Read → List Token → Prop
  | [], _ => True
  | r :: rs, ts => r.Plain ts ∧ ∀ a ts', r.follow ts = some (a, ts') → AllPlain rs ts'

/-! ## The tree and its bytes -/

theorem follow_startNode {type t : UInt8} {ts : List Token} (htype : type ≠ 0) :
    (Read.startNode type).follow (.start :: .prop t :: ts) =
      some (.flag (t = type), if t = type then ts else .start :: .prop t :: ts) :=
  if_neg htype

@[simp] theorem encode_nil : encode [] = [] := rfl

@[simp] theorem encode_cons (t : Token) (ts : List Token) :
    encode (t :: ts) = t.bytes ++ encode ts := rfl

theorem encode_append (ts us : List Token) : encode (ts ++ us) = encode ts ++ encode us :=
  List.flatMap_append

theorem encode_props (bs : List UInt8) :
    encode (bs.map .prop) = Escape.writeAll ESCAPE special bs := by
  rw [encode, List.flatMap_map]
  rfl

theorem encode_suffix {ts us : List Token} (h : ts <:+ us) : encode ts <:+ encode us := by
  obtain ⟨vs, rfl⟩ := h
  exact ⟨encode vs, (encode_append vs ts).symm⟩

theorem one_le_length_bytes (t : Token) : 1 ≤ t.bytes.length := by
  cases t with
  | prop b => exact Escape.one_le_length_write ESCAPE special b
  | _ => exact Nat.le_refl 1

theorem depth_le_length (ts : List Token) : depth ts ≤ (encode ts).length := by
  induction ts with
  | nil => exact Nat.le_refl 0
  | cons t ts ih =>
    have ht := one_le_length_bytes t
    rw [encode_cons, List.length_append]
    cases t <;> rw [depth] <;> omega

/-- Properties are inside of a node, and a node begins with its type. -/
def Nested : List Token → Prop
  | [] => True
  | .start :: ts => 0 < depth ts ∧ (∃ b us, ts = .prop b :: us) ∧ Nested ts
  | .prop _ :: ts => 0 < depth ts ∧ Nested ts
  | .stop :: ts => Nested ts

theorem depth_props_append (bs : List UInt8) (ts : List Token) :
    depth (bs.map .prop ++ ts) = depth ts := by
  induction bs with
  | nil => rfl
  | cons b bs ih => exact ih

theorem nested_props_append {ts : List Token} (h : Nested ts) (h0 : 0 < depth ts)
    (bs : List UInt8) : Nested (bs.map .prop ++ ts) := by
  induction bs with
  | nil => exact h
  | cons b bs ih => exact ⟨(depth_props_append bs ts).symm ▸ h0, ih⟩

theorem forestTokens_append {cs : List Node}
    (h : ∀ c ∈ cs, ∀ ts, Nested ts → Nested (tokens c ++ ts) ∧ depth (tokens c ++ ts) = depth ts)
    (ts : List Token) (hts : Nested ts) :
    Nested (forestTokens cs ++ ts) ∧ depth (forestTokens cs ++ ts) = depth ts := by
  induction cs with
  | nil => exact ⟨hts, rfl⟩
  | cons c cs ih =>
    obtain ⟨hn, hd⟩ := ih fun c' hc' => h c' (List.mem_cons_of_mem _ hc')
    rw [forestTokens, List.append_assoc]
    obtain ⟨hn', hd'⟩ := h c List.mem_cons_self _ hn
    exact ⟨hn', hd'.trans hd⟩

/-- A node is closed where it ends. -/
theorem tokens_append (t : Node) (ts : List Token) (hts : Nested ts) :
    Nested (tokens t ++ ts) ∧ depth (tokens t ++ ts) = depth ts := by
  induction t using RoseTree.ind generalizing ts with
  | node d cs ih =>
    obtain ⟨hn, hd⟩ := forestTokens_append ih (.stop :: ts) hts
    rw [depth] at hd
    have hbody : tokens (.node d cs) ++ ts =
        .start :: ((d.type :: d.props).map .prop ++ (forestTokens cs ++ .stop :: ts)) := by
      rw [tokens]
      simp only [List.cons_append, List.append_assoc, List.nil_append]
    have hdepth :=
      (depth_props_append (d.type :: d.props) (forestTokens cs ++ .stop :: ts)).trans hd
    have hprops := nested_props_append hn (by omega) (d.type :: d.props)
    rw [hbody, depth, hdepth]
    exact ⟨⟨by omega, ⟨d.type, _, rfl⟩, hprops⟩, rfl⟩

theorem nested_tokens (t : Node) : Nested (tokens t) := by
  have h := (tokens_append t [] trivial).1
  rwa [List.append_nil] at h

end Canary.Map
