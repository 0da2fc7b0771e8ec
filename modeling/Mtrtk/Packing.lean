import Mathlib.Data.List.Chain
import Mathlib.Data.List.Induction
import Mathlib.Tactic.Common

/-!
# Packing pieces greedily

Pieces in order are put into packs of a limited length : a piece that does not fit opens the next
pack, whatever its own length (`packs`). `Packed` is how pieces are grouped then, and `packed` says
that they are.
-/

namespace Mtrtk

namespace Packing

variable {α : Type*} (limit : ℕ)

/-- One piece more, to the packs that are closed and the one that is open. -/
def pack (s : List (List α) × List α) (piece : List α) : List (List α) × List α :=
  if s.2 ≠ [] ∧ limit < s.2.length + piece.length then (s.1 ++ [s.2], piece)
  else (s.1, s.2 ++ piece)

/-- The pack that is open is closed, unless it is empty. -/
def close (s : List (List α) × List α) : List (List α) := if s.2 = [] then s.1 else s.1 ++ [s.2]

def packs (pieces : List (List α)) : List (List α) := close (pieces.foldl (pack limit) ([], []))

/-- The groups are the pieces in order. A group that is too long is one piece, and of a group and
the next one not even the first piece fits into it. -/
structure Packed (pieces : List (List α)) (groups : List (List (List α))) : Prop where
  flatten : groups.flatten = pieces
  fits : ∀ g ∈ groups, g.flatten.length ≤ limit ∨ ∃ piece, g = [piece]
  full : groups.IsChain fun g g' => ∃ piece rest, g' = piece :: rest ∧
    limit < g.flatten.length + piece.length

variable {limit} {pieces : List (List α)}

/-- A piece opens a group. -/
theorem Packed.snoc_new {groups : List (List (List α))} {piece : List α}
    (h : Packed limit pieces groups)
    (hfull : ∀ g ∈ groups.getLast?, limit < g.flatten.length + piece.length) :
    Packed limit (pieces ++ [piece]) (groups ++ [[piece]]) where
  flatten := by rw [List.flatten_append, h.flatten, List.flatten_singleton]
  fits := List.forall_mem_append.2 ⟨h.fits, by simp⟩
  full := h.full.append (List.isChain_singleton _) fun g hg g' hg' => by
    obtain rfl : [piece] = g' := Option.some.inj hg'
    exact ⟨piece, [], rfl, hfull g hg⟩

/-- A piece is put into the last group. -/
theorem Packed.snoc_last {groups : List (List (List α))} {last : List (List α)} {piece : List α}
    (h : Packed limit pieces (groups ++ [last])) (hlast : last ≠ [])
    (hfits : last.flatten.length + piece.length ≤ limit) :
    Packed limit (pieces ++ [piece]) (groups ++ [last ++ [piece]]) where
  flatten := by simp [← h.flatten]
  fits := by
    refine List.forall_mem_append.2 ⟨fun g hg => h.fits g (List.mem_append_left _ hg), ?_⟩
    simpa using Or.inl hfits
  full := by
    obtain ⟨hgroups, -, hnext⟩ := List.isChain_append.1 h.full
    refine hgroups.append (List.isChain_singleton _) fun g hg g' hg' => ?_
    obtain rfl : last ++ [piece] = g' := Option.some.inj hg'
    obtain ⟨p, rest, rfl, hlong⟩ := hnext g hg last rfl
    exact ⟨p, rest ++ [piece], rfl, hlong⟩

/-- What `packs` makes of pieces that are not empty. -/
theorem packed (h : [] ∉ pieces) :
    ∃ groups, Packed limit pieces groups ∧ packs limit pieces = groups.map List.flatten := by
  suffices hfold : pieces = [] ∧ pieces.foldl (pack limit) ([], []) = ([], []) ∨
      ∃ groups last, last ≠ [] ∧ last.flatten ≠ [] ∧ Packed limit pieces (groups ++ [last]) ∧
        pieces.foldl (pack limit) ([], []) = (groups.map List.flatten, last.flatten) by
    rcases hfold with ⟨rfl, -⟩ | ⟨groups, last, -, hne, hpacked, heq⟩
    · exact ⟨[], ⟨rfl, by simp, .nil⟩, rfl⟩
    · exact ⟨groups ++ [last], hpacked, by simp [packs, close, heq, hne]⟩
  induction pieces using List.reverseRecOn with
  | nil => exact Or.inl ⟨rfl, rfl⟩
  | append_singleton pieces piece ih =>
    obtain ⟨hpieces, hpiece⟩ : [] ∉ pieces ∧ piece ≠ [] := by
      simpa [eq_comm] using h
    right
    rw [List.foldl_append, List.foldl_cons, List.foldl_nil]
    rcases ih hpieces with ⟨rfl, heq⟩ | ⟨groups, last, hlast, hne, hpacked, heq⟩
    · refine ⟨[], [piece], by simp, by simpa using hpiece, ?_, by simp [pack]⟩
      exact (⟨rfl, by simp, .nil⟩ : Packed limit [] []).snoc_new (by simp)
    · rw [heq, pack]
      split
      · next hlong =>
        refine ⟨groups ++ [last], [piece], by simp, by simpa using hpiece, ?_, by simp⟩
        exact hpacked.snoc_new (by simpa using hlong.2)
      · next hfits =>
        have hfits : last.flatten.length + piece.length ≤ limit :=
          not_lt.1 fun hlong => hfits ⟨hne, hlong⟩
        exact ⟨groups, last ++ [piece], by simp, by simp [hpiece], hpacked.snoc_last hlast hfits,
          by simp⟩

end Packing

end Mtrtk
