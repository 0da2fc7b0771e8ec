import Mtrtk.PyNumber

/-!
# JSON as Python writes it

`json.dumps(value, indent=2)` : the items of a list or of a dictionary on lines of their own, two
blanks further in than the brackets around them. What is not ASCII is escaped, so that the text is
ASCII (`dump_ascii`).

`Around` says that a text has another one at one place and does not depend on it elsewhere ; what is
written around a value is `Around` what is written of it.
-/

namespace Mtrtk

/-- A value that has a JSON text. -/
inductive Json
  | null
  | bool (b : Bool)
  | int (n : ℤ)
  | float (x : PyFloat)
  | str (s : Str)
  | list (items : List Json)
  | dict (items : List (Str × Json))

/-- `repr` of a float that is a number. -/
class PyRepr where
  repr : ℚ → Str
  repr_ascii : ∀ q, ∀ c ∈ repr q, c.toNat < 128

/-! ## The encoder -/

/-- `f"\\u{n:04x}"`. -/
def unicodeEscape (n : ℕ) : Str :=
  let digits := Nat.toDigits 16 n
  ['\\', 'u'] ++ List.replicate (4 - digits.length) '0' ++ digits

/-- `ESCAPE_DCT`, and what `replace` makes of another code point. -/
def escapeChar (c : Char) : Str :=
  let n := c.toNat
  if c = '\\' ∨ c = '"' then ['\\', c]
  else if n = 0x08 then ['\\', 'b']
  else if n = 0x0C then ['\\', 'f']
  else if n = 0x0A then ['\\', 'n']
  else if n = 0x0D then ['\\', 'r']
  else if n = 0x09 then ['\\', 't']
  else if 0x20 ≤ n ∧ n ≤ 0x7E then [c]
  else if n < 0x10000 then unicodeEscape n
  else
    let v := n - 0x10000
    unicodeEscape (0xD800 ||| ((v >>> 10) &&& 0x3FF)) ++ unicodeEscape (0xDC00 ||| (v &&& 0x3FF))

/-- `encode_basestring_ascii`. -/
def quote (s : Str) : Str := '"' :: s.flatMap escapeChar ++ ['"']

/-- `floatstr`. -/
def floatText [PyRepr] : PyFloat → Str
  | .finite q => PyRepr.repr q
  | .infinite false => "Infinity".toList
  | .infinite true => "-Infinity".toList
  | .nan => "NaN".toList

/-- `'\n' + _indent * level`. -/
def newline (level : ℕ) : Str := '\n' :: List.replicate (2 * level) ' '

/-- The items between their brackets. -/
def bracket (left right : Char) (level : ℕ) (items : List Str) : Str :=
  if items = [] then [left, right]
  else
    left :: newline (level + 1) ++ (',' :: newline (level + 1)).intercalate items ++
      (newline level ++ [right])

mutual

/-- What is written of a value. -/
def Json.dump [PyRepr] (level : ℕ) : Json → Str
  | .null => "null".toList
  | .bool b => if b then "true".toList else "false".toList
  | .int n => (toString n).toList
  | .float x => floatText x
  | .str s => quote s
  | .list items => bracket '[' ']' level (Json.dumpItems (level + 1) items)
  | .dict items => bracket '{' '}' level (Json.dumpPairs (level + 1) items)

/-- What is written of the items of a list. -/
def Json.dumpItems [PyRepr] (level : ℕ) : List Json → List Str
  | [] => []
  | v :: vs => Json.dump level v :: Json.dumpItems level vs

/-- What is written of the items of a dictionary. -/
def Json.dumpPairs [PyRepr] (level : ℕ) : List (Str × Json) → List Str
  | [] => []
  | (k, v) :: kvs => (quote k ++ [':', ' '] ++ Json.dump level v) :: Json.dumpPairs level kvs

end

/-- `json.dumps(value, indent=2)`. -/
def Json.dumps [PyRepr] (value : Json) : Str := value.dump 0

/-! ## All of it is ASCII -/

/-- Only ASCII code points. -/
def IsAscii (s : Str) : Prop := ∀ c ∈ s, c.toNat < 128

variable {s t : Str}

theorem isAscii_of_all (h : s.all (·.toNat < 128) = true) : IsAscii s := fun c hc => by
  simpa using List.all_eq_true.1 h c hc

theorem IsAscii.append (hs : IsAscii s) (ht : IsAscii t) : IsAscii (s ++ t) :=
  List.forall_mem_append.2 ⟨hs, ht⟩

theorem IsAscii.cons {c : Char} (hc : c.toNat < 128) (hs : IsAscii s) : IsAscii (c :: s) :=
  List.forall_mem_cons.2 ⟨hc, hs⟩

/-- An ASCII text has as many bytes as code points. -/
theorem IsAscii.length_encode (h : IsAscii s) : (encode s).length = s.length := by
  induction s with
  | nil => rfl
  | cons c s ih =>
    obtain ⟨hc, hs⟩ := List.forall_mem_cons.1 h
    have hchar : (String.utf8EncodeChar c).length = 1 := by
      rcases utf8EncodeChar_cases c with ⟨-, heq⟩ | ⟨hhigh, -⟩
      · rw [heq]
        rfl
      · omega
    rw [encode, List.flatMap_cons, List.length_append, hchar, ← encode, ih hs, List.length_cons,
      Nat.add_comm]

theorem isAscii_toDigits {b : ℕ} (hb : 1 < b) (hb' : b ≤ 16) (n : ℕ) :
    IsAscii (Nat.toDigits b n) := by
  have hdigit : ∀ d < b, (Nat.digitChar d).toNat < 128 := fun d hd =>
    (by decide : ∀ d < 16, (Nat.digitChar d).toNat < 128) d (by omega)
  induction n using Nat.strongRecOn with
  | _ n ih =>
    rw [Nat.toDigits_eq_if hb]
    split
    · next hn => exact .cons (hdigit n hn) (isAscii_of_all rfl)
    · next hn =>
      exact (ih _ (Nat.div_lt_self (by omega) hb)).append
        (.cons (hdigit _ (Nat.mod_lt n (by omega))) (isAscii_of_all rfl))

theorem isAscii_replicate {c : Char} (hc : c.toNat < 128) (n : ℕ) :
    IsAscii (List.replicate n c) := fun d hd => by
  rw [List.eq_of_mem_replicate hd]
  exact hc

theorem isAscii_intercalate {lines : List Str} (hs : IsAscii s) (h : ∀ l ∈ lines, IsAscii l) :
    IsAscii (s.intercalate lines) := by
  induction lines with
  | nil => exact isAscii_of_all rfl
  | cons l lines ih =>
    obtain ⟨hl, hlines⟩ := List.forall_mem_cons.1 h
    rcases lines with _ | ⟨l', lines⟩
    · simpa [List.intercalate] using hl
    · rw [List.intercalate_cons_cons]
      exact (hl.append hs).append (ih hlines)

theorem isAscii_unicodeEscape (n : ℕ) : IsAscii (unicodeEscape n) :=
  ((isAscii_of_all rfl).append (isAscii_replicate (by decide) _)).append
    (isAscii_toDigits (by decide) (by decide) n)

theorem isAscii_escapeChar (c : Char) : IsAscii (escapeChar c) := by
  unfold escapeChar
  simp only
  split
  · next h =>
    rcases h with rfl | rfl <;> exact isAscii_of_all rfl
  · split_ifs with _ _ _ _ _ hprint
    · exact isAscii_of_all rfl
    · exact isAscii_of_all rfl
    · exact isAscii_of_all rfl
    · exact isAscii_of_all rfl
    · exact isAscii_of_all rfl
    · exact .cons (by omega) (isAscii_of_all rfl)
    · exact isAscii_unicodeEscape _
    · exact (isAscii_unicodeEscape _).append (isAscii_unicodeEscape _)

theorem isAscii_quote (s : Str) : IsAscii (quote s) := by
  refine .append (.cons (by decide) fun c hc => ?_) (isAscii_of_all rfl)
  obtain ⟨d, -, hd⟩ := List.mem_flatMap.1 hc
  exact isAscii_escapeChar d c hd

theorem isAscii_newline (level : ℕ) : IsAscii (newline level) :=
  .cons (by decide) (isAscii_replicate (by decide) _)

theorem isAscii_bracket {left right : Char} (hleft : left.toNat < 128) (hright : right.toNat < 128)
    (level : ℕ) {items : List Str} (h : ∀ l ∈ items, IsAscii l) :
    IsAscii (bracket left right level items) := by
  unfold bracket
  split
  · exact .cons hleft (.cons hright (isAscii_of_all rfl))
  · refine .append (.append (.cons hleft (isAscii_newline _)) ?_) ?_
    · exact isAscii_intercalate (.cons (by decide) (isAscii_newline _)) h
    · exact (isAscii_newline level).append (.cons hright (isAscii_of_all rfl))

theorem isAscii_toString (n : ℤ) : IsAscii (toString n).toList := by
  cases n with
  | ofNat m =>
    change IsAscii (Nat.repr m).toList
    rw [Nat.toList_repr]
    exact isAscii_toDigits (by decide) (by decide) m
  | negSucc m =>
    change IsAscii ("-" ++ Nat.repr (m + 1)).toList
    rw [String.toList_append, Nat.toList_repr]
    exact .append (isAscii_of_all rfl) (isAscii_toDigits (by decide) (by decide) _)

/-! ## Around a text -/

/-- The text `g a` between two that do not depend on `a`. -/
def Around {α : Type*} (f g : α → Str) : Prop := ∃ before behind, ∀ a, f a = before ++ g a ++ behind

variable {α : Type*} {f g h : α → Str}

theorem Around.refl (f : α → Str) : Around f f := ⟨[], [], fun a => by simp⟩

theorem Around.trans (hfg : Around f g) (hgh : Around g h) : Around f h := by
  obtain ⟨before, behind, hf⟩ := hfg
  obtain ⟨before', behind', hg⟩ := hgh
  exact ⟨before ++ before', behind' ++ behind, fun a => by simp [hf, hg]⟩

/-- One more text in front of it and one behind. -/
theorem Around.between (hfg : Around f g) (before behind : Str) :
    Around (fun a => before ++ f a ++ behind) g :=
  Around.trans ⟨before, behind, fun _ => rfl⟩ hfg

theorem around_intercalate (sep : Str) (xs ys : List Str) (g : α → Str) :
    Around (fun a => sep.intercalate (xs ++ g a :: ys)) g := by
  induction xs with
  | nil =>
    rcases ys with _ | ⟨y, ys⟩
    · simpa using Around.refl g
    · simpa using (Around.refl g).between [] (sep ++ sep.intercalate (y :: ys))
  | cons x xs ih =>
    have hstep := ih.between (x ++ sep) []
    have hne : ∀ a, xs ++ g a :: ys ≠ [] := by simp
    simpa [List.intercalate_cons_of_ne_nil (hne _)] using hstep

theorem around_bracket (left right : Char) (level : ℕ) (xs ys : List Str) (g : α → Str) :
    Around (fun a => bracket left right level (xs ++ g a :: ys)) g := by
  have hitems := (around_intercalate (',' :: newline (level + 1)) xs ys g).between
    (left :: newline (level + 1)) (newline level ++ [right])
  simpa [bracket] using hitems

/-! ## The text of a value -/

section Dump

variable [PyRepr]

theorem isAscii_floatText (x : PyFloat) : IsAscii (floatText x) := by
  rcases x with q | (_ | _) | _
  · exact PyRepr.repr_ascii q
  · exact isAscii_of_all rfl
  · exact isAscii_of_all rfl
  · exact isAscii_of_all rfl

mutual

/-- The text of a value is ASCII. -/
theorem Json.dump_ascii (level : ℕ) : ∀ v : Json, IsAscii (v.dump level)
  | .null => isAscii_of_all rfl
  | .bool true => isAscii_of_all rfl
  | .bool false => isAscii_of_all rfl
  | .int n => isAscii_toString n
  | .float x => isAscii_floatText x
  | .str s => isAscii_quote s
  | .list items => isAscii_bracket (by decide) (by decide) level (dumpItems_ascii (level + 1) items)
  | .dict items => isAscii_bracket (by decide) (by decide) level (dumpPairs_ascii (level + 1) items)

theorem Json.dumpItems_ascii (level : ℕ) : ∀ vs : List Json, ∀ l ∈ dumpItems level vs, IsAscii l
  | [] => fun _ h => absurd h List.not_mem_nil
  | v :: vs => List.forall_mem_cons.2 ⟨dump_ascii level v, dumpItems_ascii level vs⟩

theorem Json.dumpPairs_ascii (level : ℕ) :
    ∀ kvs : List (Str × Json), ∀ l ∈ dumpPairs level kvs, IsAscii l
  | [] => fun _ h => absurd h List.not_mem_nil
  | (k, v) :: kvs => List.forall_mem_cons.2
    ⟨((isAscii_quote k).append (isAscii_of_all rfl)).append (dump_ascii level v),
      dumpPairs_ascii level kvs⟩

end

theorem Json.dumpItems_append (level : ℕ) (xs ys : List Json) :
    dumpItems level (xs ++ ys) = dumpItems level xs ++ dumpItems level ys := by
  induction xs with
  | nil => rfl
  | cons x xs ih => exact congrArg (Json.dump level x :: ·) ih

theorem Json.dumpPairs_append (level : ℕ) (xs ys : List (Str × Json)) :
    dumpPairs level (xs ++ ys) = dumpPairs level xs ++ dumpPairs level ys := by
  induction xs with
  | nil => rfl
  | cons x xs ih => exact congrArg (_ :: ·) ih

/-- Around an item of a list. -/
theorem Json.around_list (level : ℕ) (xs ys : List Json) (v : α → Json) :
    Around (fun a => (Json.list (xs ++ v a :: ys)).dump level)
      fun a => (v a).dump (level + 1) := by
  have hitems := around_bracket '[' ']' level (dumpItems (level + 1) xs)
    (dumpItems (level + 1) ys) fun a => (v a).dump (level + 1)
  simpa only [dump, dumpItems_append, dumpItems] using hitems

/-- Around the value of a key of a dictionary. -/
theorem Json.around_dict (level : ℕ) (xs ys : List (Str × Json)) (k : Str) (v : α → Json) :
    Around (fun a => (Json.dict (xs ++ (k, v a) :: ys)).dump level)
      fun a => (v a).dump (level + 1) := by
  have hitems := around_bracket '{' '}' level (dumpPairs (level + 1) xs)
    (dumpPairs (level + 1) ys) fun a => quote k ++ [':', ' '] ++ (v a).dump (level + 1)
  refine Around.trans ?_ (Around.between (Around.refl _) (quote k ++ [':', ' ']) [])
  simpa only [dump, dumpPairs_append, dumpPairs, List.append_nil] using hitems

end Dump

end Mtrtk
