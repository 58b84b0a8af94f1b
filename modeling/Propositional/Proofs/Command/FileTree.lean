import Std.Data.HashMap.Lemmas
import Propositional.Command.FileTree

/-!
# What stands where

A tree with one more entry has that entry in its place (`node?_insert`), and a path that leads there
finds it (`find_insert`). A word without slashes is a path of one name (`text_ofText_name`), and
where that name is too long the system refuses to look for it, whatever files there are
(`find_long_name`).
-/

namespace Propositional.Command

/-! ## Paths of one name -/

namespace Path

variable {name : String}

theorem pieces_of_noSlash {text : List Char} (h : '/' ∉ text) : pieces text = [text] := by
  induction text with
  | nil => rfl
  | cons c rest ih =>
    obtain ⟨hc, hrest⟩ := not_or.mp (mt List.mem_cons.mpr h)
    rw [pieces, ih hrest]
    exact fun (hslash : c = '/') => hc hslash.symm

theorem ofLiteral_name (h : '/' ∉ name.toList) (hname : name ≠ "") :
    ofLiteral name = ⟨"", [name]⟩ := by
  have hroot : rootOf name.toList = "" := by
    unfold rootOf
    split
    · next heq => exact absurd (heq ▸ List.mem_cons_self) h
    · next heq => exact absurd (heq ▸ List.mem_cons_self) h
    · next heq => exact absurd (heq ▸ List.mem_cons_self) h
    · rfl
  have htext : name.toList ≠ [] := mt String.toList_eq_nil_iff.mp hname
  rw [ofLiteral, hroot, pieces_of_noSlash h]
  simp [htext]

theorem text_ofText_name (h : '/' ∉ name.toList) (hname : name ≠ "") (hdot : name ≠ ".") :
    (ofText name).text = name := by
  rw [ofText, ofLiteral_name h hname]
  simp [text, hdot]

end Path

namespace FileTree

/-! ## Places -/

theorem node?_insert (tree : FileTree) {place : Place} (h : place.names ≠ []) (node : Node) :
    (tree.insert place node).node? place = some node := by
  unfold node? insert
  rw [if_neg (by rwa [List.isEmpty_iff])]
  exact Std.HashMap.getElem?_insert_self

theorem find_of_locate {tree : FileTree} {text : String} {place : Place} {node : Node}
    (hplace : tree.locate text = .ok place) (hnode : tree.node? place = some node) :
    tree.find text = .ok node := by
  unfold find
  rw [hplace]
  dsimp only
  rw [hnode]

theorem find_insert {tree : FileTree} {text : String} {place : Place} {node : Node}
    (hplace : (tree.insert place node).locate text = .ok place) (h : place.names ≠ []) :
    (tree.insert place node).find text = .ok node :=
  find_of_locate hplace (node?_insert tree h node)

/-! ## Names that are too long -/

theorem find_long_name (tree : FileTree) {name : String} (h : '/' ∉ name.toList)
    (hnull : '\x00' ∉ name.toList) (hlong : nameLimit < name.utf8ByteSize)
    (hpath : name.utf8ByteSize ≤ pathLimit) : tree.find name = .error .tooLong := by
  have hne (other : String) (hshort : other.utf8ByteSize ≤ nameLimit) : name ≠ other := by
    rintro rfl
    omega
  have hstart : tree.node? ⟨.above 0, []⟩ = some .folder := rfl
  have henter : tree.enter ⟨.above 0, []⟩ name = .error .tooLong := by
    rw [enter, hstart]
    dsimp only
    rw [if_neg (hne "." (by decide)), if_neg (hne ".." (by decide)), if_pos hlong]
  have hlocate : tree.locate name = .error .tooLong := by
    rw [locate, if_neg hnull, if_neg (Nat.not_lt.mpr hpath),
      Path.ofLiteral_name h (hne "" (by decide))]
    exact congrArg (· >>= pure) henter
  rw [find, hlocate]

end FileTree

end Propositional.Command
