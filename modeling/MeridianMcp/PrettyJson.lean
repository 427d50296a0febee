import Mathlib.Algebra.Ring.Nat
import MeridianMcp.Utf8

namespace PrettyJson

open MeridianMcp

-- A value as it is laid out at a depth of nesting.
abbrev Pretty := Nat → Text

def quotationMark : Char := Char.ofNat 34

def indent (depth : Nat) : Text := List.replicate (2 * depth) ' '

def escape (c : Char) : Text :=
  if c = quotationMark ∨ c = '\\' then ['\\', c]
  else if c = '\n' then ['\\', 'n']
  else if c = '\r' then ['\\', 'r']
  else if c = '\t' then ['\\', 't']
  else if c = Char.ofNat 8 then ['\\', 'b']
  else if c = Char.ofNat 12 then ['\\', 'f']
  else if c.toNat < 32 then ['\\', 'u', '0', '0', hexDigit (c.toNat / 16), hexDigit (c.toNat % 16)]
  else [c]

def quote (text : Text) : Text := quotationMark :: (text.flatMap escape ++ [quotationMark])

def string (text : Text) : Pretty := fun _ => quote text

def null : Pretty := fun _ => "null".toList

def boolean (b : Bool) : Pretty := fun _ => if b then "true".toList else "false".toList

def number (n : Nat) : Pretty := fun _ => Nat.toDigits 10 n

def optional {α : Type} (value : α → Pretty) : Option α → Pretty
  | none => null
  | some a => value a

def line (depth : Nat) (item : Pretty) : Text := '\n' :: (indent (depth + 1) ++ item (depth + 1))

def bracketed (left right : Char) : List Pretty → Pretty
  | [], _ => [left, right]
  | item :: items, depth =>
    left :: (line depth item ++ items.flatMap (fun item => ',' :: line depth item) ++
      ('\n' :: (indent depth ++ [right])))

def array (items : List Pretty) : Pretty := bracketed '[' ']' items

def object (fields : List Pretty) : Pretty := bracketed (Char.ofNat 123) (Char.ofNat 125) fields

def field (name : Text) (value : Pretty) : Pretty := fun depth => quote name ++ [':', ' '] ++ value depth

def bytes (text : Text) : Nat := (utf8 text).length

def bracketedBytes (depth : Nat) (lengths : List Nat) : Nat :=
  if lengths = [] then 2 else (lengths.map (· + (2 * depth + 4))).sum + (2 * depth + 2)

def fieldBytes (name : Text) (length : Nat) : Nat := bytes (quote name) + 2 + length

section lengths

variable {depth : Nat} {item : Pretty} {items : List Pretty} {name text : Text}

theorem bytes_append (text text' : Text) : bytes (text ++ text') = bytes text + bytes text' := by
  rw [bytes, utf8_append, List.length_append]
  rfl

theorem bytes_cons (c : Char) (text : Text) : bytes (c :: text) = c.utf8Size + bytes text :=
  length_utf8_cons c text

theorem bytes_replicate (n : Nat) (c : Char) : bytes (List.replicate n c) = n * c.utf8Size := by
  induction n with
  | zero => simp [bytes]
  | succ n ih =>
    rw [List.replicate_succ, bytes_cons, ih, Nat.add_one_mul, Nat.add_comm]

theorem bytes_line : bytes (line depth item) = bytes (item (depth + 1)) + (2 * depth + 3) := by
  have hspace : ' '.utf8Size = 1 := rfl
  have hbreak : '\n'.utf8Size = 1 := rfl
  rw [line, bytes_cons, bytes_append, indent, bytes_replicate, hspace, hbreak]
  omega

theorem bytes_lines : bytes (items.flatMap fun item => ',' :: line depth item) =
    ((items.map fun item => bytes (item (depth + 1))).map (· + (2 * depth + 4))).sum := by
  have hcomma : ','.utf8Size = 1 := rfl
  induction items with
  | nil => rfl
  | cons item items ih =>
    rw [List.flatMap_cons, bytes_append, bytes_cons, bytes_line, ih, hcomma, List.map_cons, List.map_cons,
      List.sum_cons]
    omega

theorem bytes_bracketed {left right : Char} (hleft : left.utf8Size = 1) (hright : right.utf8Size = 1) :
    bytes (bracketed left right items depth) =
      bracketedBytes depth (items.map fun item => bytes (item (depth + 1))) := by
  have hspace : ' '.utf8Size = 1 := rfl
  have hbreak : '\n'.utf8Size = 1 := rfl
  have hnil : bytes [] = 0 := rfl
  cases items with
  | nil =>
    rw [bracketed, bytes_cons, bytes_cons, hleft, hright]
    rfl
  | cons item items =>
    rw [bracketed, bytes_cons, bytes_append, bytes_append, bytes_line, bytes_lines, bytes_cons, bytes_append,
      indent, bytes_replicate, bytes_cons, hleft, hright, hspace, hbreak, hnil, bracketedBytes, List.map_cons,
      if_neg (List.cons_ne_nil _ _), List.map_cons, List.sum_cons]
    omega

theorem bytes_object : bytes (object items depth) =
    bracketedBytes depth (items.map fun item => bytes (item (depth + 1))) :=
  bytes_bracketed rfl rfl

theorem bytes_array : bytes (array items depth) =
    bracketedBytes depth (items.map fun item => bytes (item (depth + 1))) :=
  bytes_bracketed rfl rfl

theorem bytes_field : bytes (field name item depth) = fieldBytes name (bytes (item depth)) := by
  have hcolon : bytes [':', ' '] = 2 := rfl
  rw [field, bytes_append, bytes_append, hcolon]
  rfl

theorem bytes_quote (text : Text) : bytes (quote text) = bytes (text.flatMap escape) + 2 := by
  have hmark : quotationMark.utf8Size = 1 := rfl
  have hnil : bytes [] = 0 := rfl
  rw [quote, bytes_cons, bytes_append, bytes_cons, hmark, hnil]
  omega

theorem one_le_bytes_escape (c : Char) : 1 ≤ bytes (escape c) := by
  unfold escape
  split_ifs
  all_goals
    rw [bytes_cons]
    exact Nat.le_add_right_of_le (Char.utf8Size_pos _)

theorem length_le_bytes_quote (text : Text) : text.length + 2 ≤ bytes (quote text) := by
  rw [bytes_quote]
  refine Nat.add_le_add_right ?_ 2
  induction text with
  | nil => exact Nat.zero_le _
  | cons c text ih =>
    rw [List.flatMap_cons, bytes_append, List.length_cons]
    have hc := one_le_bytes_escape c
    omega

theorem bytes_quote_plain (h : ∀ c ∈ text, c.utf8Size = 1 ∧ escape c = [c]) :
    bytes (quote text) = text.length + 2 := by
  rw [bytes_quote]
  refine congrArg (· + 2) ?_
  induction text with
  | nil => rfl
  | cons c text ih =>
    rw [List.forall_mem_cons] at h
    have hnil : bytes [] = 0 := rfl
    rw [List.flatMap_cons, bytes_append, h.1.2, bytes_cons, hnil, h.1.1, ih h.2, List.length_cons]
    omega

end lengths

end PrettyJson
