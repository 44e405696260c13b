import Canary.Map.NodeTree

/-!
# Loading a tree of nodes

`OTB::Loader` parses a file in one loop with a stack of nodes. It remembers where the properties of
a node begin and end, and takes the escapes out of them when they are asked for.

A file image of a tree (`fileImage`) is parsed to the tree. The loop accepts more than that: it does
not look at what stands behind a child of a node, or behind the root, unless it is a marker, nor at
what is escaped. What is accepted are the images of trees with that in them (`Layout`, `image`);
everything else throws, and nothing behind the file is read (`load_iff`).
-/

namespace Canary.Map.Loader

open OTB

/-! ## The loader -/

/-- An iterator, as what is left of the file. -/
abbrev Iterator := List UInt8

/-- The members of a node, without its children. -/
structure Label where
  type : UInt8
  propsBegin : Iterator
  propsEnd : Iterator

/-- A node on the stack, with the children that have been left. -/
structure Frame where
  type : UInt8
  propsBegin : Iterator
  propsEnd : Iterator := []
  children : List (RoseTree Label) := []

/-- The properties end at the first child, or at the end of the node. -/
def Frame.endProps (f : Frame) (it : Iterator) : Frame :=
  if f.children.isEmpty then { f with propsEnd := it } else f

def Frame.node (f : Frame) : RoseTree Label := .node ⟨f.type, f.propsBegin, f.propsEnd⟩ f.children

/-- The loop of `parseTree`. There is no result where it throws. -/
def loop : Iterator → List Frame → Option (RoseTree Label) → Option (RoseTree Label)
  | [], parseStack, root => if parseStack.isEmpty then root else none
  | b :: it, parseStack, root =>
    if b = START then
      match parseStack, it with
      | currentNode :: parseStack, type :: it =>
        loop it ({ type, propsBegin := it } :: currentNode.endProps (b :: type :: it) :: parseStack)
          root
      | _, _ => none
    else if b = END then
      match parseStack with
      | currentNode :: parent :: parseStack =>
        let child := (currentNode.endProps (b :: it)).node
        loop it ({ parent with children := parent.children ++ [child] } :: parseStack) root
      | [currentNode] => loop it [] (some (currentNode.endProps (b :: it)).node)
      | [] => none
    else if b = ESCAPE then
      match it with
      | _ :: it => loop it parseStack root
      | [] => none
    else loop it parseStack root

/-- What comes of a file. -/
inductive Outcome
  | outside
  | invalid
  | tree (root : RoseTree Label)

/-- `parseTree`, of what follows the identifier. -/
def parseTree : Iterator → Outcome
  | [] => .outside
  | b :: it =>
    if b ≠ START then .invalid
    else match it with
      | type :: it => ((loop it [{ type, propsBegin := it }] none).map .tree).getD .invalid
      | [] => .outside

/-- The size of the smallest file, an identifier and a node without properties. -/
def minimalSize : ℕ := 7

/-- The identifier that any file may have. -/
def wildcard : List UInt8 := [0, 0, 0, 0]

/-- Open a file and parse it. -/
def load (acceptedIdentifier fileContents : List UInt8) : Outcome :=
  let fileIdentifier := fileContents.take 4
  if fileContents.length ≤ minimalSize then .invalid
  else if fileIdentifier ≠ acceptedIdentifier ∧ fileIdentifier ≠ wildcard then .invalid
  else parseTree (fileContents.drop 4)

/-- `copy_if`, without the bytes that escape the next one. -/
def copyIf : Bool → List UInt8 → List UInt8
  | _, [] => []
  | lastEscaped, byte :: l =>
    let lastEscaped := byte = ESCAPE && !lastEscaped
    if lastEscaped then copyIf lastEscaped l else byte :: copyIf lastEscaped l

/-- The properties of a node, if there are any. -/
def getProps (node : Label) : Option (List UInt8) :=
  let size := node.propsBegin.length - node.propsEnd.length
  if size = 0 then none else some (copyIf false (node.propsBegin.take size))

/-! ## File images -/

mutual

/-- What is written for a tree. -/
def fileImage : RoseTree NodeData → List UInt8
  | .node d cs =>
    START :: d.type :: (Escape.writeAll ESCAPE special d.props ++ forestFileImage cs ++ [END])

def forestFileImage : List (RoseTree NodeData) → List UInt8
  | [] => []
  | t :: ts => fileImage t ++ forestFileImage ts

end

/-- A byte of a file that is no marker, or that is escaped. -/
structure Symbol where
  escaped : Bool
  byte : UInt8
  plain : escaped = false → special byte = false

def Symbol.bytes (s : Symbol) : List UInt8 := if s.escaped then [ESCAPE, s.byte] else [s.byte]

def texts (us : List Symbol) : List UInt8 := us.flatMap Symbol.bytes

/-- A node as it may stand in a file: with symbols for its properties, and others behind it. -/
structure Layout where
  type : UInt8
  props : List Symbol
  after : List Symbol

mutual

def image : RoseTree Layout → List UInt8
  | .node d cs => START :: d.type :: (texts d.props ++ (forestImage cs ++ END :: texts d.after))

def forestImage : List (RoseTree Layout) → List UInt8
  | [] => []
  | t :: ts => image t ++ forestImage ts

end

/-- The type and the properties that are read. -/
def Layout.content (d : Layout) : UInt8 × Option (List UInt8) :=
  (d.type, if d.props = [] then none else some (d.props.map Symbol.byte))

def Label.content (d : Label) : UInt8 × Option (List UInt8) := (d.type, getProps d)

/-! ## What is accepted -/

theorem image_node (d : Layout) (cs : List (RoseTree Layout)) (l : List UInt8) :
    image (.node d cs) ++ l = START :: d.type :: (texts d.props ++ (forestImage cs ++
      END :: (texts d.after ++ l))) := by
  simp [image]

theorem special_iff {b : UInt8} : special b = false ↔ b ≠ START ∧ b ≠ END ∧ b ≠ ESCAPE := by
  simp only [special, Bool.or_eq_false_iff, beq_eq_false_iff_ne]
  tauto

variable {parseStack : List Frame} {root : Option (RoseTree Label)}

/-- A byte of the loop. -/
theorem loop_cons (b : UInt8) (it : Iterator) : loop (b :: it) parseStack root =
    if b = START then
      match parseStack, it with
      | currentNode :: parseStack, type :: it =>
        loop it ({ type, propsBegin := it } :: currentNode.endProps (b :: type :: it) :: parseStack)
          root
      | _, _ => none
    else if b = END then
      match parseStack with
      | currentNode :: parent :: parseStack =>
        let child := (currentNode.endProps (b :: it)).node
        loop it ({ parent with children := parent.children ++ [child] } :: parseStack) root
      | [currentNode] => loop it [] (some (currentNode.endProps (b :: it)).node)
      | [] => none
    else if b = ESCAPE then
      match it with
      | _ :: it => loop it parseStack root
      | [] => none
    else loop it parseStack root := by
  exact loop.eq_def (b :: it) parseStack root

theorem loop_start (currentNode : Frame) (type : UInt8) (it : Iterator) :
    loop (START :: type :: it) (currentNode :: parseStack) root =
      loop it ({ type, propsBegin := it } ::
        currentNode.endProps (START :: type :: it) :: parseStack) root := by
  rw [loop_cons]
  exact if_pos rfl

theorem loop_end (currentNode parent : Frame) (it : Iterator) :
    loop (END :: it) (currentNode :: parent :: parseStack) root =
      loop it ({ parent with children :=
        parent.children ++ [(currentNode.endProps (END :: it)).node] } :: parseStack) root := by
  rw [loop_cons]
  exact (if_neg (by decide)).trans (if_pos rfl)

theorem loop_end_root (currentNode : Frame) (it : Iterator) :
    loop (END :: it) [currentNode] root =
      loop it [] (some (currentNode.endProps (END :: it)).node) := by
  rw [loop_cons]
  exact (if_neg (by decide)).trans (if_pos rfl)

theorem loop_escape (b : UInt8) (it : Iterator) :
    loop (ESCAPE :: b :: it) parseStack root = loop it parseStack root := by
  rw [loop_cons]
  exact (if_neg (by decide)).trans ((if_neg (by decide)).trans (if_pos rfl))

/-! A marker may be missing its node, its type or its byte. -/

theorem loop_start_unopened (it : Iterator) : loop (START :: it) [] root = none := by
  rw [loop_cons]
  exact if_pos rfl

theorem loop_end_unopened (it : Iterator) : loop (END :: it) [] root = none := by
  rw [loop_cons]
  exact (if_neg (by decide)).trans (if_pos rfl)

theorem loop_start_alone : loop [START] parseStack root = none := by
  rw [loop_cons]
  cases parseStack <;> exact if_pos rfl

theorem loop_escape_alone : loop [ESCAPE] parseStack root = none := by
  rw [loop_cons]
  exact (if_neg (by decide)).trans ((if_neg (by decide)).trans (if_pos rfl))

theorem loop_plain {b : UInt8} (hb : special b = false) (it : Iterator) :
    loop (b :: it) parseStack root = loop it parseStack root := by
  obtain ⟨hstart, hend, hescape⟩ := special_iff.1 hb
  rw [loop_cons]
  exact (if_neg hstart).trans ((if_neg hend).trans (if_neg hescape))

/-- Symbols are not looked at. -/
theorem loop_texts (us : List Symbol) (l : Iterator) :
    loop (texts us ++ l) parseStack root = loop l parseStack root := by
  induction us with
  | nil => rfl
  | cons u us ih =>
    obtain ⟨escaped, b, hplain⟩ := u
    cases escaped with
    | false =>
      have hbytes : texts (⟨false, b, hplain⟩ :: us) ++ l = b :: (texts us ++ l) := rfl
      rw [hbytes, loop_plain (hplain rfl), ih]
    | true =>
      have hbytes : texts (⟨true, b, hplain⟩ :: us) ++ l = ESCAPE :: b :: (texts us ++ l) := rfl
      rw [hbytes, loop_escape, ih]

/-- The node with children, the first of which begins at an iterator. -/
def Frame.add (f : Frame) (it : Iterator) (ns : List (RoseTree Label)) : Frame :=
  if ns.isEmpty then f else { f.endProps it with children := f.children ++ ns }

theorem Frame.add_cons (f : Frame) (it it' : Iterator) (n : RoseTree Label)
    (ns : List (RoseTree Label)) : (f.add it [n]).add it' ns = f.add it (n :: ns) := by
  cases ns with
  | nil => rfl
  | cons n' ns => simp [add, endProps]

@[simp] theorem Frame.children_endProps (f : Frame) (it : Iterator) :
    (f.endProps it).children = f.children := by
  unfold endProps
  split <;> rfl

theorem copyIf_texts (us : List Symbol) : copyIf false (texts us) = us.map Symbol.byte := by
  induction us with
  | nil => rfl
  | cons u us ih =>
    obtain ⟨escaped, b, hplain⟩ := u
    cases escaped with
    | false =>
      have hbytes : texts (⟨false, b, hplain⟩ :: us) = b :: texts us := rfl
      have hescape : b ≠ ESCAPE := (special_iff.1 (hplain rfl)).2.2
      rw [hbytes, copyIf]
      simp [hescape, ih]
    | true =>
      have hbytes : texts (⟨true, b, hplain⟩ :: us) = ESCAPE :: b :: texts us := rfl
      rw [hbytes, copyIf]
      simp [copyIf, ih]

theorem texts_eq_nil_iff {us : List Symbol} : texts us = [] ↔ us = [] := by
  constructor
  · intro h
    cases us with
    | nil => rfl
    | cons u us =>
      obtain ⟨escaped, b, hplain⟩ := u
      cases escaped <;> cases h
  · rintro rfl
    rfl

theorem getProps_texts (type : UInt8) (us : List Symbol) (l : Iterator) :
    getProps ⟨type, texts us ++ l, l⟩ =
      if us = [] then none else some (us.map Symbol.byte) := by
  have hsize : (texts us ++ l).length - l.length = (texts us).length := by simp
  unfold getProps
  simp only [hsize, List.length_eq_zero_iff, texts_eq_nil_iff, List.take_left, copyIf_texts]

/-- The node that is left, with its children and the end tag behind its properties. -/
theorem content_node {d : Layout} {cs : List (RoseTree Layout)} {ns : List (RoseTree Label)}
    (hns : ns.map (·.map Label.content) = cs.map (·.map Layout.content)) (l : Iterator) :
    (((Frame.mk d.type (texts d.props ++ (forestImage cs ++ END :: l)) [] []).add
      (forestImage cs ++ END :: l) ns).endProps (END :: l)).node.map Label.content =
        (RoseTree.node d cs).map Layout.content := by
  have hlabel : ((Frame.mk d.type (texts d.props ++ (forestImage cs ++ END :: l)) [] []).add
      (forestImage cs ++ END :: l) ns).endProps (END :: l) =
        ⟨d.type, texts d.props ++ (forestImage cs ++ END :: l), forestImage cs ++ END :: l, ns⟩ := by
    cases ns with
    | nil =>
      obtain rfl := List.map_eq_nil_iff.1 hns.symm
      rfl
    | cons n ns => rfl
  rw [hlabel, Frame.node, RoseTree.map_node, RoseTree.map_node, hns, Label.content,
    getProps_texts, Layout.content]

mutual

/-- An image of a tree is read as a child of the node on the stack. -/
theorem loop_image (t : RoseTree Layout) (l : Iterator) (f : Frame) (parseStack : List Frame)
    (root : Option (RoseTree Label)) :
    ∃ n, n.map Label.content = t.map Layout.content ∧
      loop (image t ++ l) (f :: parseStack) root =
        loop l (f.add (image t ++ l) [n] :: parseStack) root :=
  match t with
  | .node d cs => by
    obtain ⟨ns, hns, hloop⟩ := loop_forestImage cs (END :: (texts d.after ++ l))
      ⟨d.type, texts d.props ++ (forestImage cs ++ END :: (texts d.after ++ l)), [], []⟩
      (f.endProps (image (.node d cs) ++ l) :: parseStack) root
    refine ⟨_, content_node hns (texts d.after ++ l), ?_⟩
    rw [image_node] at hloop ⊢
    rw [loop_start, loop_texts, hloop, loop_end, loop_texts, Frame.children_endProps]
    rfl

theorem loop_forestImage (ts : List (RoseTree Layout)) (l : Iterator) (f : Frame)
    (parseStack : List Frame) (root : Option (RoseTree Label)) :
    ∃ ns : List (RoseTree Label), ns.map (·.map Label.content) = ts.map (·.map Layout.content) ∧
      loop (forestImage ts ++ l) (f :: parseStack) root =
        loop l (f.add (forestImage ts ++ l) ns :: parseStack) root :=
  match ts with
  | [] => ⟨[], rfl, rfl⟩
  | t :: ts => by
    obtain ⟨n, hn, hloop⟩ := loop_image t (forestImage ts ++ l) f parseStack root
    obtain ⟨ns, hns, hloop'⟩ := loop_forestImage ts l (f.add (image t ++ (forestImage ts ++ l)) [n])
      parseStack root
    refine ⟨n :: ns, by rw [List.map_cons, List.map_cons, hn, hns], ?_⟩
    rw [forestImage, List.append_assoc, hloop, hloop', Frame.add_cons]

end

/-- What a loop that returns has read: symbols with the root left, and before that the rest of the
node on the stack. -/
def Reads (it : Iterator) (r : RoseTree Label) : List Frame → Prop
  | [] => ∃ us, it = texts us
  | _ :: parseStack => ∃ us cs it' parseStack' root', it = texts us ++ (forestImage cs ++ END :: it') ∧
      it'.length < it.length ∧ parseStack'.length = parseStack.length ∧
      loop it' parseStack' root' = some r

/-- A symbol more is no difference. -/
theorem Reads.cons {it : Iterator} {r : RoseTree Label} (u : Symbol) (h : Reads it r parseStack) :
    Reads (u.bytes ++ it) r parseStack := by
  cases parseStack with
  | nil =>
    obtain ⟨us, rfl⟩ := h
    exact ⟨u :: us, rfl⟩
  | cons f parseStack =>
    obtain ⟨us, cs, it', parseStack', root', rfl, hlt, hstack, hloop⟩ := h
    refine ⟨u :: us, cs, it', parseStack', root', ?_, ?_, hstack, hloop⟩
    · exact (List.append_assoc ..).symm
    · rw [List.length_append]
      exact Nat.lt_of_lt_of_le hlt (Nat.le_add_left ..)

theorem reads_of_loop {n : ℕ} {it : Iterator} (hn : it.length ≤ n) {r : RoseTree Label}
    (h : loop it parseStack root = some r) : Reads it r parseStack := by
  induction n generalizing it parseStack root with
  | zero =>
    obtain rfl := List.eq_nil_of_length_eq_zero (Nat.le_zero.1 hn)
    cases parseStack with
    | nil => exact ⟨[], rfl⟩
    | cons f parseStack => cases h
  | succ n ih =>
    cases it with
    | nil =>
      cases parseStack with
      | nil => exact ⟨[], rfl⟩
      | cons f parseStack => cases h
    | cons b it =>
      have hn' : it.length ≤ n := Nat.le_of_succ_le_succ hn
      by_cases hstart : b = START
      · subst hstart
        -- A child: what is left of the node follows it.
        rcases it with _ | ⟨type, it⟩
        · rw [loop_start_alone] at h
          cases h
        rcases parseStack with _ | ⟨f, parseStack⟩
        · rw [loop_start_unopened] at h
          cases h
        rw [loop_start] at h
        obtain ⟨us, cs, it', stack', root', rfl, hlt, hstack, hloop⟩ :=
          ih (Nat.le_of_succ_le hn') h
        rcases stack' with _ | ⟨g, stack'⟩
        · cases hstack
        have hlen : it'.length ≤ n := by
          rw [List.length_cons] at hn'
          exact Nat.le_of_lt (Nat.lt_trans hlt hn')
        obtain ⟨us', cs', it'', stack'', root'', rfl, hlt', hstack', hloop'⟩ := ih hlen hloop
        refine ⟨[], .node ⟨type, us, us'⟩ cs :: cs', it'', stack'', root'', ?_, ?_, ?_, hloop'⟩
        · simp [forestImage, image, texts]
        · simp only [List.length_cons, List.length_append] at hlt hlt' ⊢
          omega
        · rw [hstack']
          exact Nat.succ.inj hstack
      by_cases hend : b = END
      · subst hend
        rcases parseStack with _ | ⟨f, _ | ⟨g, parseStack⟩⟩
        · rw [loop_end_unopened] at h
          cases h
        · rw [loop_end_root] at h
          exact ⟨[], [], it, [], _, rfl, Nat.lt_succ_self _, rfl, h⟩
        · rw [loop_end] at h
          refine ⟨[], [], it, _, root, rfl, Nat.lt_succ_self _, ?_, h⟩
          rfl
      by_cases hescape : b = ESCAPE
      · subst hescape
        rcases it with _ | ⟨b, it⟩
        · rw [loop_escape_alone] at h
          cases h
        · rw [loop_escape] at h
          exact (ih (Nat.le_of_succ_le hn') h).cons ⟨true, b, fun h => nomatch h⟩
      · have hplain : special b = false := special_iff.2 ⟨hstart, hend, hescape⟩
        rw [loop_plain hplain] at h
        exact (ih hn' h).cons ⟨false, b, fun _ => hplain⟩

theorem parseTree_image (t : RoseTree Layout) :
    ∃ root, parseTree (image t) = .tree root ∧ root.map Label.content = t.map Layout.content := by
  obtain ⟨d, cs⟩ := t
  have hbytes := image_node d cs []
  rw [List.append_nil, List.append_nil] at hbytes
  obtain ⟨ns, hns, hloop⟩ := loop_forestImage cs (END :: texts d.after)
    ⟨d.type, texts d.props ++ (forestImage cs ++ END :: texts d.after), [], []⟩ [] none
  have hafter (root : Option (RoseTree Label)) : loop (texts d.after) [] root = root := by
    rw [← List.append_nil (texts d.after), loop_texts]
    rfl
  refine ⟨_, ?_, content_node hns (texts d.after)⟩
  rw [hbytes, parseTree, if_neg (not_not_intro rfl)]
  simp only [loop_texts, hloop, loop_end_root, hafter]
  rfl

theorem image_of_parseTree {it : Iterator} {root : RoseTree Label}
    (h : parseTree it = .tree root) : ∃ t, it = image t := by
  rcases it with _ | ⟨b, _ | ⟨type, it⟩⟩
  · cases h
  · rw [parseTree] at h
    split at h <;> cases h
  rw [parseTree] at h
  split at h
  · cases h
  rename_i hb
  obtain rfl := not_not.1 hb
  rcases hloop : loop it [{ type, propsBegin := it }] none with _ | r
  · simp only [hloop] at h
    cases h
  obtain ⟨us, cs, it', parseStack', root', hit, -, hstack, hloop'⟩ :=
    reads_of_loop (Nat.le_refl _) hloop
  obtain rfl := List.eq_nil_of_length_eq_zero hstack
  obtain ⟨us', rfl⟩ := reads_of_loop (Nat.le_refl _) hloop'
  exact ⟨.node ⟨type, us, us'⟩ cs, by rw [hit, image]⟩

/-! ## Trees that are written -/

/-- A byte as it is written. -/
def written (b : UInt8) : Symbol := ⟨special b, b, id⟩

/-- A node as it is written. -/
def layoutOf (d : NodeData) : Layout := ⟨d.type, d.props.map written, []⟩

theorem texts_written (l : List UInt8) :
    texts (l.map written) = Escape.writeAll ESCAPE special l := by
  induction l with
  | nil => rfl
  | cons b l ih =>
    have hcons : texts ((b :: l).map written) = (written b).bytes ++ texts (l.map written) := rfl
    rw [hcons, ih, Escape.writeAll_cons]
    rfl

mutual

theorem fileImage_eq : ∀ t : RoseTree NodeData, fileImage t = image (t.map layoutOf)
  | .node d cs => by
    rw [fileImage, RoseTree.map, image, forestFileImage_eq cs, layoutOf, texts_written,
      List.append_assoc]
    rfl

theorem forestFileImage_eq : ∀ ts : List (RoseTree NodeData),
    forestFileImage ts = forestImage (RoseTree.forestMap layoutOf ts)
  | [] => rfl
  | t :: ts => by
    rw [forestFileImage, RoseTree.forestMap, forestImage, fileImage_eq t, forestFileImage_eq ts]

end

/-- The type and the properties of a node, if it has any. -/
def content (d : NodeData) : UInt8 × Option (List UInt8) :=
  (d.type, if d.props = [] then none else some d.props)

theorem content_layout (d : NodeData) : (layoutOf d).content = content d := by
  have hbytes : d.props.map (Symbol.byte ∘ written) = d.props := List.map_id d.props
  simp only [Layout.content, content, layoutOf, List.map_eq_nil_iff, List.map_map, hbytes]

/-- The file is large enough, with an identifier that is accepted. -/
def Opens (acceptedIdentifier fileContents : List UInt8) : Prop :=
  minimalSize < fileContents.length ∧
    (fileContents.take 4 = acceptedIdentifier ∨ fileContents.take 4 = wildcard)

theorem load_eq {acceptedIdentifier fileContents : List UInt8}
    (h : Opens acceptedIdentifier fileContents) :
    load acceptedIdentifier fileContents = parseTree (fileContents.drop 4) := by
  obtain ⟨hsize, hid⟩ := h
  unfold load
  rw [if_neg (Nat.not_le_of_lt hsize), if_neg (by tauto)]

theorem load_of_not_opens {acceptedIdentifier fileContents : List UInt8}
    (h : ¬Opens acceptedIdentifier fileContents) :
    load acceptedIdentifier fileContents = .invalid := by
  unfold load
  split
  · rfl
  rename_i hsize
  rw [if_pos]
  exact not_or.1 fun hid => h ⟨Nat.lt_of_not_le hsize, hid⟩

theorem parseTree_ne_outside {it : Iterator} (h : 2 ≤ it.length) : parseTree it ≠ .outside := by
  rcases it with _ | ⟨b, _ | ⟨type, it⟩⟩
  · cases h
  · cases h
    contradiction
  rw [parseTree]
  split
  · exact fun h => nomatch h
  · cases loop it [{ type, propsBegin := it }] none <;> exact fun h => nomatch h

/-- Nothing behind the file is read. A file image of a tree is loaded as the tree. And a tree is
loaded only from images, though there may be more in them than what is written. -/
theorem load_iff (acceptedIdentifier fileContents : List UInt8) :
    load acceptedIdentifier fileContents ≠ .outside ∧
    (∀ t : RoseTree NodeData, Opens acceptedIdentifier fileContents →
      fileContents.drop 4 = fileImage t → ∃ root,
        load acceptedIdentifier fileContents = .tree root ∧
          root.map Label.content = t.map content) ∧
    ∀ tree, (∃ root, load acceptedIdentifier fileContents = .tree root ∧
        root.map Label.content = tree) ↔
      Opens acceptedIdentifier fileContents ∧
        ∃ t, fileContents.drop 4 = image t ∧ t.map Layout.content = tree := by
  by_cases hopens : Opens acceptedIdentifier fileContents
  · rw [load_eq hopens]
    refine ⟨?_, fun t _ ht => ?_, fun tree => ⟨?_, ?_⟩⟩
    · refine parseTree_ne_outside ?_
      have hsize : 7 < fileContents.length := hopens.1
      rw [List.length_drop]
      omega
    · obtain ⟨root, hroot, hcontent⟩ := parseTree_image (t.map layoutOf)
      refine ⟨root, by rw [ht, fileImage_eq, hroot], hcontent.trans ?_⟩
      rw [RoseTree.map_map]
      exact congrArg (fun g => t.map g) (funext content_layout)
    · rintro ⟨root, hroot, rfl⟩
      obtain ⟨t, ht⟩ := image_of_parseTree hroot
      obtain ⟨root', hroot', hcontent⟩ := parseTree_image t
      rw [ht, hroot'] at hroot
      obtain rfl := Outcome.tree.inj hroot
      exact ⟨hopens, t, ht, hcontent.symm⟩
    · rintro ⟨-, t, ht, rfl⟩
      rw [ht]
      exact parseTree_image t
  · rw [load_of_not_opens hopens]
    refine ⟨(fun h => nomatch h), fun _ h => absurd h hopens, fun tree => ⟨?_, ?_⟩⟩
    · rintro ⟨root, h, -⟩
      cases h
    · rintro ⟨h, -⟩
      exact absurd h hopens

theorem load_escaped :
    ∃ root, load wildcard (wildcard ++ [START, 1, ESCAPE, END, START, 2, END, END]) = .tree root ∧
      root.map Label.content = .node (1, some [END]) [.node (2, none) []] :=
  (load_iff _ _).2.1 (.node ⟨1, [END]⟩ [.node ⟨2, []⟩ []]) ⟨by decide, .inr rfl⟩ rfl

/-- A byte behind the root is no part of an image, and is accepted. -/
theorem trailing_byte_accepted :
    (∃ root, load wildcard (wildcard ++ [START, 1, END, 0]) = .tree root) ∧
      ∀ t, fileImage t ≠ [START, 1, END, 0] := by
  refine ⟨⟨_, rfl⟩, fun t h => ?_⟩
  obtain ⟨d, cs⟩ := t
  have hbytes : fileImage (.node d cs) =
      (START :: d.type :: (Escape.writeAll ESCAPE special d.props ++ forestFileImage cs)) ++
        [END] := by
    simp [fileImage]
  have hlast : (fileImage (.node d cs)).getLast? = some END := by
    rw [hbytes, List.getLast?_concat]
  rw [h] at hlast
  revert hlast
  decide

end Canary.Map.Loader
