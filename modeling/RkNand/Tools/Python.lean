import Mathlib.Tactic

/-!
# Python's strings and errors

What the command line tools use of Python's text: strings as sequences of code points, lone
surrogates included, their UTF-8 form, and the errors a call can end in.
-/

namespace RkNand.Python

/-- One element of a `str`: a Unicode scalar value, or a lone surrogate `U+D800 + n`. -/
inductive CodePoint
  | scalar (c : Char)
  | surrogate (n : Fin 2048)
deriving DecidableEq

/-- `str`. -/
abbrev PyStr := List CodePoint

/-- A string literal. -/
def str (s : String) : PyStr := s.toList.map .scalar

/-- The `08x` and `08X` formats: a hexadecimal number, padded with zeros to eight digits. -/
def format08 (digit : ℕ → Char) (n : ℕ) : PyStr :=
  (List.leftpad 8 '0' ((Nat.digits 16 n).reverse.map digit)).map .scalar

/-- The errors the tools raise. -/
inductive PyError
  | systemExit (message : PyStr)
  | structError
  | unicodeEncodeError
  | unicodeDecodeError
  | assertionError
  | osError
deriving DecidableEq

/-- The value of a step that can fail in one way. -/
def orRaise {α : Type} (e : PyError) : Option α → Except PyError α
  | some a => .ok a
  | none => .error e

@[simp] theorem ok_bind {α β : Type} (a : α) (f : α → Except PyError β) :
    ((.ok a : Except PyError α) >>= f) = f a := rfl

@[simp] theorem error_bind {α β : Type} (e : PyError) (f : α → Except PyError β) :
    ((.error e : Except PyError α) >>= f) = .error e := rfl

@[simp] theorem orRaise_some_bind {α β : Type} (e : PyError) (a : α) (f : α → Except PyError β) :
    (orRaise e (some a) >>= f) = f a := rfl

@[simp] theorem orRaise_none_bind {α β : Type} (e : PyError) (f : α → Except PyError β) :
    (orRaise e none >>= f) = .error e := rfl

/-- The scalar value, which a surrogate does not have. -/
def CodePoint.toChar? : CodePoint → Option Char
  | .scalar c => some c
  | .surrogate _ => none

/-- `str.encode()`: UTF-8, which has no form for a surrogate. -/
def encode (s : PyStr) : Option (List UInt8) :=
  (s.mapM CodePoint.toChar?).map fun cs => cs.flatMap String.utf8EncodeChar

/-- `bytes.decode()`, of bytes that are UTF-8. -/
def decode (bytes : List UInt8) : Option PyStr :=
  bytes.toByteArray.utf8Decode?.map fun cs => cs.toList.map .scalar

theorem eq_map_scalar_of_mapM {s : PyStr} {cs : List Char}
    (scalars : s.mapM CodePoint.toChar? = some cs) : s = cs.map .scalar := by
  induction s generalizing cs with
  | nil =>
    cases scalars
    rfl
  | cons c s ih =>
    cases c with
    | surrogate n => simp [CodePoint.toChar?] at scalars
    | scalar c =>
      simp only [List.mapM_cons, CodePoint.toChar?, Option.pure_def, Option.bind_eq_bind,
        Option.bind_some, Option.bind_eq_some_iff, Option.some.injEq] at scalars
      obtain ⟨rest, tail, rfl⟩ := scalars
      rw [List.map_cons, ← ih tail]

/-- What was encoded decodes to itself. -/
theorem decode_encode {s : PyStr} {bytes : List UInt8} (encoded : encode s = some bytes) :
    decode bytes = some s := by
  obtain ⟨cs, scalars, rfl⟩ := Option.map_eq_some_iff.1 encoded
  have back : (cs.flatMap String.utf8EncodeChar).toByteArray.utf8Decode? = some cs.toArray :=
    List.utf8Decode?_utf8Encode
  rw [decode, back, eq_map_scalar_of_mapM scalars]
  rfl

/-! ## UTF-16 -/

/-- The code units of a little-endian byte string; there are none if a byte is left over. -/
def utf16Units : List UInt8 → Option (List ℕ)
  | [] => some []
  | lo :: hi :: rest => (utf16Units rest).map ((lo.toNat + 256 * hi.toNat) :: ·)
  | [_] => none

/-- The characters of UTF-16 code units: surrogates stand in pairs only. -/
def utf16Chars : List ℕ → Option (List Char)
  | [] => some []
  | u :: rest =>
    if u < 0xD800 ∨ 0xDFFF < u then (utf16Chars rest).map (Char.ofNat u :: ·)
    else if u < 0xDC00 then
      match rest with
      | v :: rest =>
        if 0xDC00 ≤ v ∧ v ≤ 0xDFFF then
          (utf16Chars rest).map
            (Char.ofNat (0x10000 + (u - 0xD800) * 0x400 + (v - 0xDC00)) :: ·)
        else none
      | [] => none
    else none

/-- `bytes.decode("utf-16-le")`. -/
def decodeUtf16le (bytes : List UInt8) : Option PyStr :=
  ((utf16Units bytes).bind utf16Chars).map fun cs => cs.map .scalar

/-! ## Dictionaries -/

section Dict

variable {κ ν : Type} [DecidableEq κ]

/-- A `dict`: its items in the order of insertion. -/
abbrev Dict (κ ν : Type) := List (κ × ν)

/-- `d[k] = v`. -/
def Dict.set (d : Dict κ ν) (k : κ) (v : ν) : Dict κ ν :=
  if k ∈ d.map Prod.fst then d.map fun item => if item.1 = k then (k, v) else item
  else d ++ [(k, v)]

/-- `d.get(k)`. -/
def Dict.get? (d : Dict κ ν) (k : κ) : Option ν :=
  (d.find? fun item => item.1 = k).map Prod.snd

theorem Dict.mem_of_get? {d : Dict κ ν} {k : κ} {v : ν} (found : Dict.get? d k = some v) :
    (k, v) ∈ d := by
  obtain ⟨⟨k', v'⟩, first, rfl⟩ := Option.map_eq_some_iff.1 found
  have key : k' = k := by simpa using List.find?_some first
  exact key ▸ List.mem_of_find?_eq_some first

/-- An item is one that was set, or was there before. -/
theorem Dict.mem_foldl_set {items : List (κ × ν)} {d : Dict κ ν} {item : κ × ν}
    (member : item ∈ items.foldl (fun d item => Dict.set d item.1 item.2) d) :
    item ∈ items ∨ item ∈ d := by
  induction items generalizing d with
  | nil => exact .inr member
  | cons first items ih =>
    rcases ih member with later | stored
    · exact .inl (List.mem_cons_of_mem _ later)
    · have either : item = first ∨ item ∈ d := by
        simp only [Dict.set] at stored
        split_ifs at stored
        · obtain ⟨old, there, rfl⟩ := List.mem_map.1 stored
          split_ifs
          · exact .inl rfl
          · exact .inr there
        · rcases List.mem_append.1 stored with there | new
          · exact .inr there
          · exact .inl (List.mem_singleton.1 new)
      rcases either with rfl | there
      · exact .inl (by simp)
      · exact .inr there

/-- Setting distinct new keys adds an item for each. -/
theorem Dict.foldl_set (items : List (κ × ν)) (d : Dict κ ν)
    (distinct : ((d ++ items).map Prod.fst).Nodup) :
    items.foldl (fun d item => Dict.set d item.1 item.2) d = d ++ items := by
  induction items generalizing d with
  | nil => simp
  | cons item items ih =>
    have new : item.1 ∉ d.map Prod.fst := by
      intro old
      rw [List.map_append, List.nodup_append] at distinct
      exact distinct.2.2 _ old _ (by simp) rfl
    have regrouped : d ++ item :: items = d ++ [item] ++ items := by simp
    rw [List.foldl_cons, Dict.set, if_neg new, regrouped, ih]
    rwa [← regrouped]

end Dict

/-- A loop none of whose rounds raises. -/
theorem foldlM_ok {α β : Type} (step : β → α → Except PyError β) (next : β → α → β) (xs : List α)
    (b : β) (well : ∀ x ∈ xs, ∀ b, step b x = .ok (next b x)) :
    xs.foldlM step b = .ok (xs.foldl next b) := by
  induction xs generalizing b with
  | nil => rfl
  | cons x xs ih =>
    rw [List.foldlM_cons, well x (by simp), ok_bind, List.foldl_cons]
    exact ih _ fun y hy => well y (by simp [hy])

/-- Where the whole has ended well, each part has. -/
theorem eq_ok_of_bind {α β : Type} {x : Except PyError α} {f : α → Except PyError β} {b : β}
    (ended : (x >>= f) = .ok b) : ∃ a, x = .ok a ∧ f a = .ok b := by
  cases x with
  | error e => cases ended
  | ok a => exact ⟨a, rfl, ended⟩

theorem eq_some_of_orRaise {α : Type} {e : PyError} {a : Option α} {v : α}
    (ended : orRaise e a = .ok v) : a = some v := by
  cases a with
  | none => cases ended
  | some v' =>
    cases ended
    rfl

/-- No round raises in a loop that ends well. -/
theorem round_of_foldlM_ok {α β : Type} {step : β → α → Except PyError β} {xs : List α} {b b' : β}
    (ended : xs.foldlM step b = .ok b') : ∀ x ∈ xs, ∃ c c', step c x = .ok c' := by
  induction xs generalizing b with
  | nil => simp
  | cons x xs ih =>
    rw [List.foldlM_cons] at ended
    obtain ⟨c, round, rest⟩ := eq_ok_of_bind ended
    intro y member
    rcases List.mem_cons.1 member with rfl | later
    · exact ⟨b, c, round⟩
    · exact ih rest y later

end RkNand.Python
