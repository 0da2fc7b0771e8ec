import Mathlib.Data.List.Nodup
import Mathlib.Tactic.Common

/-!
# Bisecting a refused configuration

`core/receiver.py` : `_apply_with_bisect` writes a list of items in chunks, and halves a chunk
the receiver refuses until the keys it does not take are alone.

The receiver answers every CFG-VALSET. It takes all items of one whose keys it knows, and none
of one with a bad key in it (`valset`). `bisect_eq` : what comes of a refused list is its bad
keys, and a receiver that holds the others, written in order. `apply_with_bisect` is the same
of any list of items.
-/

namespace Mtrtk

namespace Bisect

variable {κ ν : Type*}

/-! ## Chunks -/

/-- `chunked`. -/
def chunked (n : ℕ) (items : List (κ × ν)) : List (List (κ × ν)) :=
  (List.range ((items.length + n - 1) / n)).map fun i => (items.drop (i * n)).take n

theorem flatten_chunks (n : ℕ) (items : List (κ × ν)) : ∀ k : ℕ,
    ((List.range k).map fun i => (items.drop (i * n)).take n).flatten = items.take (k * n)
  | 0 => by simp
  | k + 1 => by
    rw [List.range_succ, List.map_append, List.flatten_append, flatten_chunks n items k,
      Nat.succ_mul, List.take_add]
    simp

/-- The chunks are the items, in order. -/
theorem flatten_chunked {n : ℕ} (hn : 0 < n) (items : List (κ × ν)) :
    (chunked n items).flatten = items := by
  have hdiv := Nat.div_add_mod (items.length + n - 1) n
  have hmod := Nat.mod_lt (items.length + n - 1) hn
  rw [Nat.mul_comm] at hdiv
  rw [chunked, flatten_chunks, List.take_of_length_le]
  omega

/-! ## The receiver -/

variable [DecidableEq κ]

/-- What a receiver holds, by the bit of a layer and the key. -/
abbrev Config (κ ν : Type*) := ℕ → κ → Option ν

/-- An item, in the layers whose bits are set. -/
def Config.write (layers : ℕ) (cfg : Config κ ν) (item : κ × ν) : Config κ ν :=
  fun layer key => if layers.testBit layer ∧ key = item.1 then some item.2 else cfg layer key

/-- Items in order. -/
def Config.writeAll (layers : ℕ) (cfg : Config κ ν) (items : List (κ × ν)) : Config κ ν :=
  items.foldl (Config.write layers) cfg

/-- `link.valset` : whether it is acknowledged, and what the receiver holds then. -/
def valset (bad : κ → Bool) (layers : ℕ) (items : List (κ × ν)) (cfg : Config κ ν) :
    Bool × Config κ ν :=
  if items.any fun item => bad item.1 then (false, cfg) else (true, cfg.writeAll layers items)

theorem writeAll_append (layers : ℕ) (cfg : Config κ ν) (a b : List (κ × ν)) :
    cfg.writeAll layers (a ++ b) = (cfg.writeAll layers a).writeAll layers b :=
  List.foldl_append

/-- Items that are not of this layer and key do not change what is held for them. -/
theorem writeAll_other {layers layer : ℕ} {key : κ} : ∀ {items : List (κ × ν)}
    (cfg : Config κ ν), (layers.testBit layer → key ∉ items.map Prod.fst) →
    cfg.writeAll layers items layer key = cfg layer key
  | [], _, _ => rfl
  | item :: items, cfg, h => by
    have hitem : ¬(layers.testBit layer ∧ key = item.1) := by
      rintro ⟨hlayer, rfl⟩
      exact h hlayer (by simp)
    have hrest : layers.testBit layer → key ∉ items.map Prod.fst :=
      fun hlayer hkey => h hlayer (by simp only [List.map_cons, List.mem_cons, hkey, or_true])
    calc (cfg.write layers item).writeAll layers items layer key
        = cfg.write layers item layer key := writeAll_other _ hrest
      _ = cfg layer key := if_neg hitem

/-- Of items with distinct keys, each is held once all are written. -/
theorem writeAll_mem {layers layer : ℕ} (hlayer : layers.testBit layer) {item : κ × ν} :
    ∀ {items : List (κ × ν)} (cfg : Config κ ν), (items.map Prod.fst).Nodup → item ∈ items →
      cfg.writeAll layers items layer item.1 = some item.2
  | first :: items, cfg, hkeys, hmem => by
    obtain ⟨hfirst, hkeys⟩ := List.nodup_cons.mp hkeys
    rcases List.mem_cons.mp hmem with rfl | hmem
    · calc (cfg.write layers item).writeAll layers items layer item.1
          = cfg.write layers item layer item.1 := writeAll_other _ fun _ => hfirst
        _ = some item.2 := if_pos ⟨hlayer, rfl⟩
    · exact writeAll_mem hlayer (cfg.write layers first) hkeys hmem

/-! ## The search -/

/-- `_bisect`, of a list that was refused. The halves of one with two items or more are
shorter, so it ends ; the empty list is never refused. -/
def bisect (bad : κ → Bool) (layers : ℕ) : List (κ × ν) → Config κ ν → List κ × Config κ ν
  | [], cfg => ([], cfg)
  | [item], cfg => ([item.1], cfg)
  | item :: item' :: rest, cfg =>
    let items := item :: item' :: rest
    let mid := items.length / 2
    let left := valset bad layers (items.take mid) cfg
    let r := if left.1 then ([], left.2) else bisect bad layers (items.take mid) left.2
    let right := valset bad layers (items.drop mid) r.2
    let r' := if right.1 then ([], right.2) else bisect bad layers (items.drop mid) right.2
    (r.1 ++ r'.1, r'.2)
  termination_by items => items.length
  decreasing_by
    · simp only [List.length_take, List.length_cons]
      omega
    · simp only [List.length_drop, List.length_cons]
      omega

/-- The loop of `_apply_with_bisect` over the chunks. -/
def applyChunks (bad : κ → Bool) (layers : ℕ) :
    List (List (κ × ν)) → Config κ ν → List κ × Config κ ν
  | [], cfg => ([], cfg)
  | chunk :: chunks, cfg =>
    let answer := valset bad layers chunk cfg
    let r := if answer.1 then ([], answer.2) else bisect bad layers chunk answer.2
    let r' := applyChunks bad layers chunks r.2
    (r.1 ++ r'.1, r'.2)

/-- `_apply_with_bisect`, with chunks of `n` items (`MAX_KEYS_PER_VALSET` is 64). -/
def applyWithBisect (bad : κ → Bool) (layers n : ℕ) (items : List (κ × ν)) (cfg : Config κ ν) :
    List κ × Config κ ν :=
  applyChunks bad layers (chunked n items) cfg

/-! ## What comes of it -/

/-- The bad keys of the items, and a receiver that holds the other items. -/
def settled (bad : κ → Bool) (layers : ℕ) (items : List (κ × ν)) (cfg : Config κ ν) :
    List κ × Config κ ν :=
  ((items.filter fun item => bad item.1).map Prod.fst,
    cfg.writeAll layers (items.filter fun item => !bad item.1))

section

variable (bad : κ → Bool) (layers : ℕ)

theorem settled_append (a b : List (κ × ν)) (cfg : Config κ ν) :
    settled bad layers (a ++ b) cfg =
      ((settled bad layers a cfg).1 ++ (settled bad layers b (settled bad layers a cfg).2).1,
        (settled bad layers b (settled bad layers a cfg).2).2) := by
  simp only [settled, List.filter_append, List.map_append, writeAll_append]

/-- A list that is sent and, where it is refused, bisected. -/
theorem valset_settled {items : List (κ × ν)} {cfg : Config κ ν}
    {search : Config κ ν → List κ × Config κ ν}
    (hsearch : (∃ item ∈ items, bad item.1) → search cfg = settled bad layers items cfg) :
    (if (valset bad layers items cfg).1 then ([], (valset bad layers items cfg).2)
      else search (valset bad layers items cfg).2) = settled bad layers items cfg := by
  by_cases h : ∃ item ∈ items, bad item.1
  · have hany : (items.any fun item => bad item.1) = true := List.any_eq_true.mpr h
    simp only [valset, hany, if_true, Bool.false_eq_true, if_false, hsearch h]
  · have hany : (items.any fun item => bad item.1) = false := by
      rw [← Bool.not_eq_true, List.any_eq_true]
      exact h
    have hbad : items.filter (fun item => bad item.1) = [] :=
      List.filter_eq_nil_iff.mpr fun item hmem hb => h ⟨item, hmem, hb⟩
    have hgood : items.filter (fun item => !bad item.1) = items :=
      List.filter_eq_self.mpr fun item hmem => by
        simpa using fun hb => h ⟨item, hmem, hb⟩
    simp only [valset, hany, if_true, Bool.false_eq_true, if_false, settled, hbad, hgood,
      List.map_nil]

/-- A refused list is searched to its bad keys. The induction is on its length : each half is
sent first, and searched only when it has a bad key too. -/
theorem bisect_eq (items : List (κ × ν)) (cfg : Config κ ν)
    (h : ∃ item ∈ items, bad item.1) :
    bisect bad layers items cfg = settled bad layers items cfg := by
  induction hn : items.length using Nat.strongRecOn generalizing items cfg with
  | _ n ih =>
    match items with
    | [] => simp at h
    | [item] =>
      have hbad : bad item.1 = true := by simpa using h
      simp [bisect, settled, Config.writeAll, hbad]
    | item :: item' :: rest =>
      have hhalf : ∀ half cfg', half.length < n → (∃ item ∈ half, bad item.1) →
          bisect bad layers half cfg' = settled bad layers half cfg' :=
        fun half cfg' hlt hbad => ih _ hlt half cfg' hbad rfl
      rw [bisect, valset_settled bad layers (hhalf _ _ _), valset_settled bad layers (hhalf _ _ _),
        ← settled_append, List.take_append_drop]
      · simp only [List.length_drop, List.length_cons] at hn ⊢
        omega
      · simp only [List.length_take, List.length_cons] at hn ⊢
        omega

theorem applyChunks_eq : ∀ (chunks : List (List (κ × ν))) (cfg : Config κ ν),
    applyChunks bad layers chunks cfg = settled bad layers chunks.flatten cfg
  | [], cfg => rfl
  | chunk :: chunks, cfg => by
    rw [applyChunks, valset_settled bad layers (bisect_eq bad layers chunk cfg),
      applyChunks_eq chunks, ← settled_append, List.flatten_cons]

end

/-- The bad keys of the list are returned, in its order, the receiver holds the value of every
other item in the layers that are written, and nothing else is changed. -/
theorem apply_with_bisect (bad : κ → Bool) (layers n : ℕ) (hn : 0 < n) (items : List (κ × ν))
    (hkeys : (items.map Prod.fst).Nodup) (cfg : Config κ ν) :
    (applyWithBisect bad layers n items cfg).1 = (items.map Prod.fst).filter bad ∧
      (∀ item ∈ items, bad item.1 = false → ∀ layer, layers.testBit layer →
        (applyWithBisect bad layers n items cfg).2 layer item.1 = some item.2) ∧
      ∀ layer key, (layers.testBit layer → key ∈ items.map Prod.fst → bad key = true) →
        (applyWithBisect bad layers n items cfg).2 layer key = cfg layer key := by
  rw [applyWithBisect, applyChunks_eq, flatten_chunked hn]
  refine ⟨?_, fun item hitem hgood layer hlayer => ?_, fun layer key hkey => ?_⟩
  · rw [settled, List.filter_map]
    rfl
  · refine writeAll_mem hlayer cfg ?_ (List.mem_filter.mpr ⟨hitem, by simp [hgood]⟩)
    exact hkeys.sublist ((List.filter_sublist).map Prod.fst)
  · refine writeAll_other cfg fun hlayer hmem => ?_
    obtain ⟨item, hitem, rfl⟩ := List.mem_map.mp hmem
    obtain ⟨hitem, hgood⟩ := List.mem_filter.mp hitem
    have hbad := hkey hlayer (List.mem_map_of_mem hitem)
    simp [hbad] at hgood

/-- Three items in chunks of two, the middle key bad. -/
theorem apply_with_bisect_middle :
    ([(1, 10), (2, 20), (3, 30)].map Prod.fst).Nodup ∧
      (applyWithBisect (fun key => key == 2) 1 2 [(1, 10), (2, 20), (3, 30)]
        fun _ _ => none).1 = [2] ∧
      (applyWithBisect (fun key => key == 2) 1 2 [(1, 10), (2, 20), (3, 30)]
        fun _ _ => none).2 0 3 = some 30 := by
  have hkeys : ([(1, 10), (2, 20), (3, 30)].map Prod.fst : List ℕ).Nodup := by decide
  obtain ⟨hbad, hgood, -⟩ := apply_with_bisect (fun key => key == 2) 1 2 (by decide)
    [(1, 10), (2, 20), (3, 30)] hkeys fun _ _ => (none : Option ℕ)
  exact ⟨hkeys, hbad, hgood (3, 30) (by decide) rfl 0 rfl⟩

end Bisect

end Mtrtk
