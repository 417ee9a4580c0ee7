import Cuesheet.Proofs.Document.Keys

/-!
# The pieces of a tree

A tree falls into pieces, in document order: the start of each element, with its parent, and each
character of its text. An edit of one node exchanges the pieces of that node for others, and keeps
all pieces before and after them (`pieces_modify`).
-/

namespace Cuesheet.Xml

/-- A piece of a tree: where an element starts, or a character. -/
inductive Piece where
  | element (key : Nat) (parent : Option Nat) (name : String)
      (attributes : Entries String String)
  | char (c : Char)
  deriving DecidableEq, Repr

namespace Piece

def char? : Piece → Option Char
  | element .. => none
  | char c => some c

theorem filterMap_chars (text : List Char) : (text.map char).filterMap char? = text := by
  rw [List.filterMap_map]
  exact List.filterMap_some

end Piece

namespace Node

/-- Where an element starts that has a parent. -/
def opening (parent : Option Nat) (node : Node) : Piece :=
  .element node.key parent node.name node.attributes

mutual

/-- The pieces of a tree without the text that follows it. -/
def pieces (parent : Option Nat) : Node → List Piece
  | ⟨key, name, attributes, text, children, _⟩ =>
    .element key parent name attributes :: (text.map .char ++ piecesAll (some key) children)

/-- The pieces of several trees with the text after each of them. -/
def piecesAll (parent : Option Nat) : List Node → List Piece
  | [] => []
  | node :: rest => node.pieces parent ++ node.tail.map .char ++ piecesAll parent rest

end

/-- The pieces inside a node. -/
def contents (node : Node) : List Piece :=
  node.text.map .char ++ piecesAll (some node.key) node.children

variable {root node place : Node} {parent : Option Nat}

theorem pieces_eq (parent : Option Nat) (node : Node) :
    node.pieces parent = node.opening parent :: node.contents := by
  cases node
  rw [pieces]
  rfl

theorem piecesAll_eq (parent : Option Nat) (nodes : List Node) :
    piecesAll parent nodes =
      nodes.flatMap fun node => node.pieces parent ++ node.tail.map .char := by
  induction nodes with
  | nil => rfl
  | cons node rest ih => rw [piecesAll, ih, List.flatMap_cons]

theorem piecesAll_append (parent : Option Nat) (front back : List Node) :
    piecesAll parent (front ++ back) = piecesAll parent front ++ piecesAll parent back := by
  simp only [piecesAll_eq, List.flatMap_append]

/-- The text that follows a tree is none of its pieces. -/
theorem pieces_tail (parent : Option Nat) (node : Node) (tail : List Char) :
    pieces parent { node with tail } = node.pieces parent := by
  rw [pieces_eq, pieces_eq]
  rfl

/-- The characters among the pieces are the text. -/
theorem text_pieces (parent : Option Nat) (node : Node) :
    (node.pieces parent).filterMap Piece.char? = node.innerText := by
  induction node using children_induction generalizing parent with
  | step node ih =>
      have hchildren : (piecesAll (some node.key) node.children).filterMap Piece.char? =
          node.children.flatMap fun child => child.innerText ++ child.tail := by
        rw [piecesAll_eq, List.filterMap_flatMap]
        refine List.flatMap_congr fun child hchild => ?_
        rw [List.filterMap_append, ih child hchild, Piece.filterMap_chars]
      rw [pieces_eq, contents, innerText_eq, ← hchildren, List.filterMap_cons_none rfl,
        List.filterMap_append, Piece.filterMap_chars]

/-! ## One node among its siblings -/

/-- No other node of several trees has the key of a node that stands in one of them. -/
theorem notMem_siblings (h : root.keys.Nodup) {front back : List Node}
    (hchildren : root.children = front ++ node :: back) (hplace : node.Encloses place) :
    (∀ c ∈ front, place.key ∉ c.keys) ∧ ∀ c ∈ back, place.key ∉ c.keys := by
  have hmem : place.key ∈ node.keys := mem_keys.mpr ⟨place, hplace, rfl⟩
  rw [keys_eq, hchildren, List.flatMap_append, List.flatMap_cons] at h
  obtain ⟨-, htail, hfront⟩ := List.nodup_append.mp (List.nodup_cons.mp h).2
  obtain ⟨-, -, hback⟩ := List.nodup_append.mp htail
  refine ⟨fun c hc hkey => ?_, fun c hc hkey => ?_⟩
  · exact hfront place.key (List.mem_flatMap.mpr ⟨c, hc, hkey⟩) place.key
      (List.mem_append_left _ hmem) rfl
  · exact hback place.key hmem place.key (List.mem_flatMap.mpr ⟨c, hc, hkey⟩) rfl

theorem map_modify_of_notMem {key : Nat} {f : Node → Node} {nodes : List Node}
    (h : ∀ c ∈ nodes, key ∉ c.keys) : nodes.map (modify key f) = nodes :=
  (List.map_congr_left fun c hc => modify_of_notMem (h c hc)).trans (List.map_id _)

theorem tail_modify {key : Nat} {f : Node → Node} (hf : ∀ n : Node, (f n).tail = n.tail)
    (node : Node) : (node.modify key f).tail = node.tail := by
  rw [modify_eq]
  split
  · exact hf node
  · rfl

/-- To remove a child is to leave it out among its siblings. -/
theorem removeChild_eq (h : root.keys.Nodup) {front back : List Node}
    (hchildren : root.children = front ++ node :: back) :
    root.removeChild node.key = { root with children := front ++ back } := by
  obtain ⟨hfront, hback⟩ := notMem_siblings h hchildren (.self node)
  have hkept : ∀ {c : Node}, node.key ∉ c.keys → (c.key != node.key) = true := by
    intro c hc
    refine bne_iff_ne.mpr fun hkey => hc ?_
    rw [← hkey]
    exact mem_keys.mpr ⟨c, .self c, rfl⟩
  have hgone : (node.key != node.key) = false := bne_self_eq_false _
  rw [removeChild, hchildren, List.filter_append, List.filter_cons, hgone,
    List.filter_eq_self.mpr fun c hc => hkept (hfront c hc),
    List.filter_eq_self.mpr fun c hc => hkept (hback c hc)]
  rfl

/-- To replace a child is to put another node among its siblings, before the same text. -/
theorem replaceChild_eq (h : root.keys.Nodup) {front back : List Node}
    (hchildren : root.children = front ++ node :: back) (replacement : Node) :
    root.replaceChild node.key replacement =
      { root with children := front ++ { replacement with tail := node.tail } :: back } := by
  obtain ⟨hfront, hback⟩ := notMem_siblings h hchildren (.self node)
  have hkept : ∀ {nodes : List Node}, (∀ c ∈ nodes, node.key ∉ c.keys) →
      (nodes.map fun child =>
        if child.key = node.key then { replacement with tail := child.tail } else child) =
      nodes := by
    intro nodes hnodes
    refine (List.map_congr_left fun c hc => if_neg fun hkey => hnodes c hc ?_).trans (List.map_id _)
    rw [← hkey]
    exact mem_keys.mpr ⟨c, .self c, rfl⟩
  rw [replaceChild, hchildren, List.map_append, List.map_cons, if_pos rfl, hkept hfront,
    hkept hback]

/-! ## One node in a tree -/

/-- The pieces around a node are kept by whatever edit of the node. -/
theorem pieces_modify (h : root.keys.Nodup) (hplace : root.Encloses place)
    (outer : Option Nat) :
    ∃ front parent back, root.pieces outer = front ++ place.pieces parent ++ back ∧
      ∀ f : Node → Node, (∀ n, (f n).tail = n.tail) →
        (root.modify place.key f).pieces outer = front ++ (f place).pieces parent ++ back := by
  induction hplace generalizing outer with
  | self place =>
      refine ⟨[], outer, [], by rw [List.nil_append, List.append_nil], fun f _ => ?_⟩
      rw [modify_eq, if_pos rfl, List.nil_append, List.append_nil]
  | @child root c place mem inner ih =>
      obtain ⟨front, back, hchildren⟩ := List.append_of_mem mem
      obtain ⟨before, parent, after, hpieces, hmodify⟩ :=
        ih (keys_nodup_of_mem h mem) (some root.key)
      obtain ⟨hfront, hback⟩ := notMem_siblings h hchildren inner
      refine ⟨root.opening outer :: (root.text.map .char ++ piecesAll (some root.key) front ++
        before), parent, after ++ c.tail.map .char ++ piecesAll (some root.key) back, ?_,
        fun f hf => ?_⟩
      · rw [pieces_eq, contents, hchildren, piecesAll_append, piecesAll, hpieces]
        simp only [List.append_assoc, List.cons_append]
      · rw [modify_eq, if_neg (key_ne_of_inside h mem inner), pieces_eq, contents]
        simp only [hchildren, List.map_append, List.map_cons, map_modify_of_notMem hfront,
          map_modify_of_notMem hback, piecesAll_append, piecesAll, hmodify f hf, tail_modify hf,
          opening, List.append_assoc, List.cons_append]

/-- The pieces around a child are kept if the child is removed, but for the text that follows it,
and they are all kept if the child is replaced. -/
theorem pieces_modify_child (h : root.keys.Nodup) (hplace : root.Encloses place)
    (hnode : node ∈ place.children) (outer : Option Nat) :
    ∃ front parent back,
      root.pieces outer = front ++ node.pieces parent ++ (node.tail.map .char ++ back) ∧
      (root.modify place.key fun n => n.removeChild node.key).pieces outer = front ++ back ∧
      ∀ replacement : Node,
        (root.modify place.key fun n => n.replaceChild node.key replacement).pieces outer =
          front ++ replacement.pieces parent ++ (node.tail.map .char ++ back) := by
  obtain ⟨front, back, hchildren⟩ := List.append_of_mem hnode
  obtain ⟨before, parent, after, hpieces, hmodify⟩ := pieces_modify h hplace outer
  have hnodup := keys_nodup_of_encloses h hplace
  refine ⟨before ++ (place.opening parent :: (place.text.map .char ++
    piecesAll (some place.key) front)), some place.key, piecesAll (some place.key) back ++ after,
    ?_, ?_, fun replacement => ?_⟩
  · rw [hpieces, pieces_eq, contents, hchildren, piecesAll_append, piecesAll]
    simp only [List.append_assoc, List.cons_append]
  · rw [hmodify (fun n => n.removeChild node.key) fun _ => rfl, removeChild_eq hnodup hchildren, pieces_eq, contents]
    simp only [piecesAll_append, opening, List.append_assoc, List.cons_append]
  · rw [hmodify (fun n => n.replaceChild node.key replacement) fun _ => rfl,
      replaceChild_eq hnodup hchildren, pieces_eq, contents]
    simp only [piecesAll_append, piecesAll, pieces_tail, opening, List.append_assoc,
      List.cons_append]

end Node

end Cuesheet.Xml
