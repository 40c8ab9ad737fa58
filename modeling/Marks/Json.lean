import Mathlib.Algebra.BigOperators.Group.List.Basic
import Mathlib.Algebra.Ring.Nat

/-! # JSON texts

Values, their compact text, and its length in bytes. Strings are lists of characters and a number is its own
digits; fields stand in the order they are written. -/

inductive Json
  | null
  | bool (b : Bool)
  | number (digits : List Char)
  | string (text : List Char)
  | array (items : List Json)
  | object (fields : List (List Char × Json))
deriving Repr

namespace Json

def isObject : Json → Bool
  | object _ => true
  | null | bool _ | number _ | string _ | array _ => false

def hex (n : Nat) : Char := if n < 10 then Char.ofNat (48 + n) else Char.ofNat (87 + n)

/-- What a character is written as inside quotes. -/
def escape (c : Char) : List Char :=
  match c.toNat with
  | 8 => ['\\', 'b']
  | 9 => ['\\', 't']
  | 10 => ['\\', 'n']
  | 12 => ['\\', 'f']
  | 13 => ['\\', 'r']
  | 34 => ['\\', '"']
  | 92 => ['\\', '\\']
  | n => if n < 32 then ['\\', 'u', '0', '0', hex (n / 16), hex (n % 16)] else [c]

def quote (text : List Char) : List Char := '"' :: text.flatMap escape ++ ['"']

mutual

def serialize : Json → List Char
  | null => ['n', 'u', 'l', 'l']
  | bool true => ['t', 'r', 'u', 'e']
  | bool false => ['f', 'a', 'l', 's', 'e']
  | number digits => digits
  | string text => quote text
  | array items => '[' :: serializeItems items ++ [']']
  | object fields => '{' :: serializeFields fields ++ ['}']

def serializeItems : List Json → List Char
  | [] => []
  | [item] => item.serialize
  | item :: items => item.serialize ++ ',' :: serializeItems items

def serializeFields : List (List Char × Json) → List Char
  | [] => []
  | [(name, value)] => quote name ++ ':' :: value.serialize
  | (name, value) :: fields => quote name ++ ':' :: value.serialize ++ ',' :: serializeFields fields

end

/-! ## Lengths -/

def utf8Bytes (text : List Char) : Nat := (text.map Char.utf8Size).sum

@[simp] theorem utf8Bytes_nil : utf8Bytes [] = 0 := rfl

@[simp] theorem utf8Bytes_cons (c : Char) (text : List Char) : utf8Bytes (c :: text) = c.utf8Size + utf8Bytes text :=
  List.sum_cons

@[simp] theorem utf8Bytes_append (text rest : List Char) :
    utf8Bytes (text ++ rest) = utf8Bytes text + utf8Bytes rest := by
  unfold utf8Bytes
  rw [List.map_append, List.sum_append]

theorem utf8Bytes_quote (text : List Char) : utf8Bytes (quote text) = utf8Bytes (text.flatMap escape) + 2 := by
  unfold quote
  rw [List.cons_append, utf8Bytes_cons, utf8Bytes_append]
  have hmark : Char.utf8Size '"' = 1 := rfl
  rw [hmark, utf8Bytes_cons, utf8Bytes_nil, hmark]
  omega

theorem utf8Bytes_replicate (n : Nat) (c : Char) :
    utf8Bytes ((List.replicate n c).flatMap escape) = n * utf8Bytes (escape c) := by
  induction n with
  | zero => rw [Nat.zero_mul]; rfl
  | succ n ih => rw [List.replicate_succ, List.flatMap_cons, utf8Bytes_append, ih, Nat.succ_mul, Nat.add_comm]

end Json
