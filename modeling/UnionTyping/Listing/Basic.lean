/-
  UnionTyping/Listing/Basic.lean
  ==============================
  **Listings** — values written out as nested records, one field or item to a
  line, each level indented by four blanks:

      Variable(
          Variable {
              name: "x",
          },
      )
-/
import UnionTyping.Listing.Unprinted
import UnionTyping.Text.Basic

namespace UnionTyping

inductive Listing where
  | atom (text : Text)
  /-- A record with named fields, of which there is at least one. -/
  | record (name : Text) (fields : List (Text × Listing))
  /-- A named value around another. -/
  | wrapped (name : Text) (value : Listing)
  | list (items : List Listing)

namespace Listing

/-! ### Strings -/

/-- How a character is written between the quotes. -/
def escapeChar (c : Char) : Text :=
  if c = '\x00' then ['\\', '0']
  else if c = '\t' then ['\\', 't']
  else if c = '\r' then ['\\', 'r']
  else if c = '\n' then ['\\', 'n']
  else if c = '"' ∨ c = '\\' then ['\\', c]
  else if isUnprinted c then '\\' :: 'u' :: '\x7b' :: (Nat.toDigits 16 c.toNat ++ ['\x7d'])
  else [c]

def quoted (t : Text) : Listing := atom ('"' :: (t.flatMap escapeChar ++ ['"']))

def bool (b : Bool) : Listing := atom (if b then "true".toList else "false".toList)

/-- A value that may be missing. -/
def option : Option Listing → Listing
  | none => atom "None".toList
  | some l => wrapped "Some".toList l

/-! ### Layout -/

private def newline (indent : Nat) : Text := '\n' :: List.replicate (4 * indent) ' '

mutual

/-- The lines of a listing, the first one without its indentation. -/
def text (indent : Nat) : Listing → Text
  | atom t => t
  | record name fields =>
    name ++ ' ' :: '\x7b' :: (fieldsText (indent + 1) fields ++ newline indent ++ ['\x7d'])
  | wrapped name value =>
    name ++ '(' :: (newline (indent + 1) ++ text (indent + 1) value ++ ','
      :: (newline indent ++ [')']))
  | list [] => ['[', ']']
  | list (l :: ls) =>
    '[' :: (newline (indent + 1) ++ text (indent + 1) l ++ ','
      :: (itemsText (indent + 1) ls ++ newline indent ++ [']']))

def fieldsText (indent : Nat) : List (Text × Listing) → Text
  | [] => []
  | (name, value) :: fields =>
    newline indent ++ name ++ ':' :: ' ' :: (text indent value ++ ',' :: fieldsText indent fields)

def itemsText (indent : Nat) : List Listing → Text
  | [] => []
  | l :: ls => newline indent ++ text indent l ++ ',' :: itemsText indent ls

end

end Listing

end UnionTyping
