/-!
# Tags and their names

A tag is a handle to an object of the scene database.  The number zero is the
null tag, which no expression may refer to.  A table of names maps tags to
something readable and is used for dumps only.
-/

namespace MaterialGraph

/-- A handle to a database object. -/
structure Tag where
  number : UInt64
  deriving DecidableEq, Repr

namespace Tag

/-- The tag that refers to nothing. -/
def null : Tag := ⟨0⟩

def isNull (tag : Tag) : Bool :=
  tag == null

/-- The text shown for a tag without a name. -/
def text (tag : Tag) : String :=
  "tag " ++ toString tag.number.toNat

instance : Ord Tag := ⟨fun left right => compare left.number right.number⟩

end Tag

/-- Names of tags, in increasing order of the tags' numbers. -/
structure TagNames where
  entries : List (UInt64 × String) := []
  deriving DecidableEq, Repr

namespace TagNames

def size (names : TagNames) : Nat :=
  names.entries.length

def isEmpty (names : TagNames) : Bool :=
  names.entries.isEmpty

/-- Give a number a name in an increasing list; a name that it had is lost. -/
def putEntry (number : UInt64) (name : String) :
    List (UInt64 × String) → List (UInt64 × String)
  | [] => [(number, name)]
  | (other, held) :: rest =>
      if number < other then
        (number, name) :: (other, held) :: rest
      else if number = other then
        (number, name) :: rest
      else
        (other, held) :: putEntry number name rest

/-- Give any tag a name, the null tag included. -/
def put (names : TagNames) (tag : Tag) (name : String) : TagNames :=
  ⟨putEntry tag.number name names.entries⟩

/-- Give a tag a name.  Nothing happens for the null tag. -/
def insert (names : TagNames) (tag : Tag) (name : String) : TagNames :=
  if tag.isNull then names else names.put tag name

/-- The name of a tag, if it has one. -/
def resolve? (names : TagNames) (tag : Tag) : Option String :=
  names.entries.lookup tag.number

/-- The table that results from inserting the pairs in order. -/
def ofList (pairs : List (Tag × String)) : TagNames :=
  pairs.foldl (fun names pair => names.insert pair.1 pair.2) {}

end TagNames

end MaterialGraph
