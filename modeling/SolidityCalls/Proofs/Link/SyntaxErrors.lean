import SolidityCalls.Link.Extract
import SolidityCalls.Link.Profile
import SolidityCalls.Proofs.SyntaxTree.Faults
import Mathlib

/-! Where a source file is said to be wrong. Of all faults in its tree, loading a file tells the
first; whether the file is refused for it or used all the same, the position is the same. -/
namespace SolidityCalls

open Node

/-- Loading a file tells a syntax error at a position: by its failure or, if such files are used, by
the warning that a walk gives for the file. Lines and columns are told from one. -/
structure Sources.TellsFault (s : Sources) (file : Path) (tree : Node) (position : Position) :
    Prop where
  refused : ¬ s.tolerant → s.load file = .error (.malformed file position)
  used : s.tolerant → s.load file = .ok ⟨file, tree, some position⟩
  warned : ∀ w : Walk, .opened ⟨file, tree, some position⟩ ∈ w.trace →
    .toleratedFault file position ∈ Profile.log w ∧ .toleratedFault file position ∈ Extract.log w
  failure_text : (Failure.malformed file position).message = file.render ++ ": syntax error at " ++
    ("L" ++ toString (position.line + 1) ++ ":C" ++ toString (position.column + 1))
  warning_text : (LogEvent.toleratedFault file position).message =
    (Failure.malformed file position).message ++ "; continuing with partial tree"

namespace Sources

variable {s : Sources} {file : Path} {content : Content}

theorem load_of_not_hasError (hread : s.host.read file = .ok content)
    (herror : ¬ content.tree.hasError) : s.load file = .ok ⟨file, content.tree, none⟩ := by
  simp [load, hread, herror]

/-- A marked tree is told by the node that the search finds. -/
theorem tellsFault_of_read (hread : s.host.read file = .ok content)
    (herror : content.tree.hasError) {n : Node} (hn : content.tree.firstFault? = some n) :
    s.TellsFault file content.tree (.ofOffset content.bytes n.start) where
  refused htolerant := by simp [load, hread, herror, hn, htolerant]
  used htolerant := by simp [load, hread, herror, hn, htolerant]
  warned _ hopened := ⟨List.mem_filterMap.mpr ⟨_, hopened, rfl⟩,
    List.mem_filterMap.mpr ⟨_, hopened, rfl⟩⟩
  failure_text := rfl
  warning_text := rfl

/-- In a tree whose marks are right, the search comes to the place of the first fault in preorder,
or to none if there is none, and a node that is not faulty never stands for itself. Loading a file
with such a tree tells where that fault stands in the text, and nothing if there is none. Where the
nodes of the tree are in the order of the text, no other fault stands before it. -/
theorem search_agrees_with_scan {root : Node} (h : root.MarksFaults) :
    (root.firstFault? = (Place.firstFault? [] root).map (·.node) ∧
      Place.firstFault? [] root = (Place.preorder [] root).find? (·.node.isFault)) ∧
    root.firstFault? = root.preorder.find? (·.isFault) ∧
    (root.firstFault? = none ↔ ∀ n ∈ root.preorder, ¬ n.isFault) ∧
    (∀ n ∈ root.preorder, ¬ n.isFault → n.hasError → (firstFaultIn? n.children).isSome) ∧
    ∀ (s : Sources) (file : Path) (content : Content), s.host.read file = .ok content →
      content.tree = root →
        ((∀ n ∈ root.preorder, ¬ n.isFault) → s.load file = .ok ⟨file, root, none⟩) ∧
        ∀ n, root.preorder.find? (·.isFault) = some n →
          ∃ position, position.IsAt content.bytes n.start ∧ s.TellsFault file root position ∧
            (root.StartsInOrder → ∀ m ∈ root.preorder, m.isFault →
              ∀ q : Position, q.IsAt content.bytes m.start → position.IsUpTo q) := by
  have hmarks := h.marksHolders
  refine ⟨⟨(Place.map_node_firstFault? [] root).symm, Place.firstFault?_eq_find? hmarks []⟩,
    hmarks.firstFault?_eq_find?, hmarks.firstFault?_eq_none_iff,
    fun n hn => hmarks.isSome_firstFaultIn? hn, ?load⟩
  rintro s file content hread rfl
  have hroot := h content.tree (self_mem_preorder content.tree)
  refine ⟨fun hclean => load_of_not_hasError hread fun herror => ?_, fun n hn => ?_⟩
  · obtain ⟨m, hm, hfault⟩ := hroot.mp herror
    exact hclean m hm hfault
  · have herror := hroot.mpr ⟨n, List.mem_of_find?_eq_some hn, List.find?_some hn⟩
    have hfirst := hmarks.firstFault?_eq_find?.trans hn
    have hposition := Position.isAt_ofOffset content.bytes n.start
    refine ⟨_, hposition, tellsFault_of_read hread herror hfirst, ?_⟩
    intro horder m hm hfault q hq
    exact hposition.isUpTo hq (horder.start_le hn hm hfault)

/-- A leaf without faults. -/
def soundLeaf (kind : String) (start : Nat) : Node :=
  ⟨kind, true, false, false, none, start, "", []⟩

/-- A node that is or holds a fault. -/
def markedNode (kind : String) (start : Nat) (children : List Node) : Node :=
  ⟨kind, true, false, true, none, start, "", children⟩

/-- A token that the text lacks. -/
def missingToken (kind : String) (start : Nat) : Node :=
  ⟨kind, false, true, true, none, start, "", []⟩

/-- Two contracts. In the second one `g(h(1;` and `@@` are wrong; the two missing parentheses are
equal as nodes. -/
def unclosedCalls : Node :=
  let inner := markedNode "call_expression" 40
    [soundLeaf "identifier" 40, soundLeaf "number_literal" 42, missingToken ")" 43]
  let outer := markedNode "call_expression" 38
    [soundLeaf "identifier" 38, markedNode "call_argument" 40 [inner], missingToken ")" 43]
  let body := markedNode "contract_body" 25
    [markedNode "state_variable_declaration" 29 [soundLeaf "identifier" 34, outer],
      markedNode "ERROR" 47 [markedNode "ERROR" 47 []]]
  markedNode "source_file" 0 [soundLeaf "contract_declaration" 0,
    markedNode "contract_declaration" 14 [soundLeaf "identifier" 23, body]]

def unclosedContent : Content where
  bytes := Utf8.encode "contract A \x7b\x7d\ncontract B \x7b\n  uint x = g(h(1;\n  @@\n\x7d\n"
  tree := unclosedCalls

def unclosed : Sources where
  host :=
    { files :=
        { entries := [(["b.sol"], .file unclosedContent)]
          distinct := by decide }
      workingDirectory := []
      home := Path.absolute []
      accounts := [] }
  dependencies := Path.absolute ["lib"]
  tolerant := false

/-- The inner parenthesis is found, and told in the third line. -/
theorem search_agrees_unclosedCalls :
    unclosedCalls.MarksFaults ∧ unclosedCalls.StartsInOrder ∧
      unclosedCalls.firstFault? = some (missingToken ")" 43) ∧
      (Place.firstFault? [] unclosedCalls).map (·.above.map (·.index)) =
        some [2, 0, 1, 1, 0, 1, 1] ∧
      unclosed.load (Path.absolute ["b.sol"]) =
        .error (.malformed (Path.absolute ["b.sol"]) ⟨2, 16⟩) := by
  have hmarks : unclosedCalls.MarksFaults := by
    unfold MarksFaults
    decide
  have horder : unclosedCalls.StartsInOrder := by
    unfold StartsInOrder
    decide
  have hfirst : unclosedCalls.preorder.find? (·.isFault) = some (missingToken ")" 43) := by
    cbv
  have hread : unclosed.host.read (Path.absolute ["b.sol"]) = .ok unclosedContent := by cbv
  have hposition : Position.ofOffset unclosedContent.bytes 43 = ⟨2, 16⟩ := by cbv
  obtain ⟨⟨_, hplace⟩, hsearch, _, _, hload⟩ := search_agrees_with_scan hmarks
  obtain ⟨position, hat, htells, _⟩ := (hload unclosed _ _ hread rfl).2 _ hfirst
  obtain rfl : position = ⟨2, 16⟩ := hat.eq_ofOffset.trans hposition
  refine ⟨hmarks, horder, hsearch.trans hfirst, ?_, htells.refused (by decide)⟩
  rw [hplace]
  decide

end Sources
end SolidityCalls
