import ScimQuery.Filter.Basic

/-!
# Filter — Hash

What a filter or a path feeds to a hasher, item by item, and the hash that comes of it.  The
operands of `and` and of `or` are hashed one by one; their hashes are fed in increasing order and
each of them once, since equality of filters does not see the order and the repetition of
operands either.

The hasher itself is left open: any function from what it was fed to a word, for what is hashed
as a whole and for an operand by itself.  So is what a number feeds to it.
-/

namespace ScimQuery

/-- What is fed to a hasher at once. -/
inductive HashItem where
  /-- Which alternative of a type follows, by its number. -/
  | variant (number : Nat)
  /-- How many items of a list follow. -/
  | length (n : Nat)
  | text (s : String)
  | bool (b : Bool)
  | word (w : UInt64)
  deriving Repr, DecidableEq

/-- A way to hash. -/
structure Hasher where
  /-- The hash of what was fed. -/
  finish : List HashItem → UInt64
  /-- The hash of what an operand of `and` or `or` feeds. -/
  operand : List HashItem → UInt64
  /-- What a number feeds. -/
  number : Number → List HashItem

/-- The words in increasing order, each of them once. -/
def sortedWords (words : List UInt64) : List UInt64 :=
  (words.mergeSort (fun a b => decide (a ≤ b))).eraseReps

/-- What a list of words feeds. -/
def wordItems (words : List UInt64) : List HashItem :=
  .length words.length :: words.map .word

/-- What an operator feeds. -/
def Operator.hashItems (op : Operator) : List HashItem :=
  [.variant (Operator.all.idxOf op)]

/-- What a value feeds. -/
def Value.hashItems (h : Hasher) : Value → List HashItem
  | .null => [.variant 0]
  | .bool b => [.variant 1, .bool b]
  | .number n => .variant 2 :: h.number n
  | .string s => [.variant 3, .text s]

/-- What a path feeds, from what its attributes feed. -/
def Path.hashItemsOf (p : Path) (elements : List HashItem) : List HashItem :=
  match p.urn with
  | none => .variant 0 :: .length p.length :: elements
  | some urn => .variant 1 :: .text urn :: .length p.length :: elements

mutual

/-- What a filter feeds. -/
def Filter.hashItems (h : Hasher) : Filter → List HashItem
  | .compare op p v =>
    .variant 0 :: (op.hashItems ++ p.hashItemsOf (p.elementItems h) ++ v.hashItems h)
  | .present p => .variant 1 :: p.hashItemsOf (p.elementItems h)
  | .and fs => .variant 2 :: wordItems (sortedWords (Filter.operandHashes h fs))
  | .or fs => .variant 3 :: wordItems (sortedWords (Filter.operandHashes h fs))
  | .not f => .variant 4 :: f.hashItems h
  | .complex p f => .variant 5 :: (p.hashItemsOf (p.elementItems h) ++ f.hashItems h)

/-- The hashes of some operands. -/
def Filter.operandHashes (h : Hasher) : List Filter → List UInt64
  | [] => []
  | f :: fs => h.operand (f.hashItems h) :: Filter.operandHashes h fs

/-- What the attributes of a path feed. -/
def Path.elementItems (h : Hasher) : Path → List HashItem
  | .root _ => []
  | .sub p name => p.elementItems h ++ [.text name, .variant 0]
  | .subWhere p name f => p.elementItems h ++ .text name :: .variant 1 :: f.hashItems h

end

/-- What a path feeds. -/
def Path.hashItems (h : Hasher) (p : Path) : List HashItem :=
  p.hashItemsOf (p.elementItems h)

/-- The hash of a filter. -/
def Filter.hash (h : Hasher) (f : Filter) : UInt64 :=
  h.finish (f.hashItems h)

/-- The hash of a path. -/
def Path.hash (h : Hasher) (p : Path) : UInt64 :=
  h.finish (p.hashItems h)

theorem Filter.operandHashes_eq_map (h : Hasher) : ∀ fs : List Filter,
    Filter.operandHashes h fs = fs.map fun f => h.operand (f.hashItems h)
  | [] => rfl
  | _ :: fs => congrArg _ (Filter.operandHashes_eq_map h fs)

end ScimQuery
