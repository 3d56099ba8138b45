import ImpliedKeys.Json.Basic

/-!
# Column types

The built-in types fall into categories, and two of one category hold comparable values. A reference
to an enumeration is comparable with references to the same enumeration only, and a type that only
some database knows with types of the same name, case aside.
-/
namespace ImpliedKeys

inductive ColumnType where
  | integer (precision : Option UInt32)
  | varchar (length : UInt32)
  | text
  | boolean
  | timestamp (withTimeZone : Option Bool)
  | json
  | decimal (precision scale : UInt32)
  | float
  | double
  | char (length : UInt32)
  | date
  | time (withTimeZone : Option Bool)
  | blob
  | uuid
  | jsonb
  | enumeration (name : String)
  /-- A type of a particular database, with parameters of any shape. -/
  | dialect (kind : String) (params : List (String × Json))
  deriving DecidableEq, Inhabited

/-- What the values of a type are, as far as comparing them goes. -/
inductive TypeCategory where
  | numeric
  | string
  | dateTime
  | binary
  | json
  | boolean
  | uuid
  | other
  deriving DecidableEq, Inhabited

/-- Whether two texts agree when the case of ASCII letters is ignored. -/
def sameIgnoringCase (a b : String) : Bool :=
  a.toList.map Char.toLower = b.toList.map Char.toLower

namespace ColumnType

/-- The category of a type; enumerations and database-specific types belong to none of the
built-in ones. -/
def category : ColumnType → TypeCategory
  | integer _ | decimal _ _ | float | double => .numeric
  | varchar _ | text | char _ => .string
  | date | time _ | timestamp _ => .dateTime
  | blob => .binary
  | json | jsonb => .json
  | boolean => .boolean
  | uuid => .uuid
  | enumeration _ | dialect _ _ => .other

def comparable : ColumnType → ColumnType → Bool
  | enumeration l, enumeration r => l = r
  | dialect l _, dialect r _ => sameIgnoringCase l r
  | l, r => l.category ≠ .other && l.category = r.category

def isDialect : ColumnType → Bool
  | dialect _ _ => true
  | _ => false

/-- Whether two types are the same, parameters included; those with a fraction are compared as
numbers. -/
def same : ColumnType → ColumnType → Bool
  | dialect l ps, dialect r qs => l = r && Json.sameFields ps qs
  | l, r => decide (l = r)

end ColumnType

end ImpliedKeys
