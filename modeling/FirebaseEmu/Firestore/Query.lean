import FirebaseEmu.Firestore.Compare
import FirebaseEmu.Firestore.Fields
import Mathlib.Data.List.Sort
import Std.Data.ExtTreeSet

namespace FirebaseEmu.Firestore
open Lib Std

def contains (array needle : Value) : Bool :=
  match array with
  | .arrayValue values => values.any (fun v => v.compare needle == .eq)
  | _ => false

/-- A field filter once the field's value `a` and the operand `b` are known. -/
def fieldFilterMatches (op : Int) (a b : Value) : Except Status Bool :=
  let cmp := a.compare b
  let same := valueRank a == valueRank b
  match op with
  | 1 => .ok (same && cmp.isLT)
  | 2 => .ok (same && cmp.isLE)
  | 3 => .ok (same && cmp.isGT)
  | 4 => .ok (same && cmp.isGE)
  | 5 => .ok cmp.isEq
  | 6 => .ok (!cmp.isEq)
  | 7 => .ok (contains a b)
  | 8 => .ok (contains b a)
  | 9 => match a with
    | .arrayValue values => .ok (values.any (contains b))
    | _ => .ok false
  | 10 => .ok (valueRank a != 0 && !contains b (.nullValue 0) && !contains b a)
  | _ => .error (invalidArgument "invalid field operator")

def unaryFilterMatches (op : Int) (a : Value) : Except Status Bool :=
  let nan := match a with
    | .doubleValue v => v.isNan
    | _ => false
  let null := valueRank a == 0
  match op with
  | 2 => .ok nan
  | 3 => .ok null
  | 4 => .ok !nan
  | 5 => .ok !null
  | _ => .error (invalidArgument "invalid unary operator")

mutual

def filterMatches (doc : Document) : Filter → Except Status Bool
  | .unset => .error (invalidArgument "filter is required")
  | .compositeFilter op filters => do
    let values ← filterMatchesAll doc filters
    match op with
    | 1 => pure (values.all id)
    | 2 => pure (values.any id)
    | _ => throw (invalidArgument "invalid composite operator")
  | .fieldFilter none _ _ => .error (invalidArgument "filter field is required")
  | .fieldFilter (some _) _ none => .error (invalidArgument "filter value is required")
  | .fieldFilter (some field) op (some b) =>
    match fieldValue doc field with
    | none => .ok false
    | some a => fieldFilterMatches op a b
  | .unaryFilter _ none => .error (invalidArgument "unary field is required")
  | .unaryFilter op (some field) =>
    match fieldValue doc field with
    | none => .ok false
    | some a => unaryFilterMatches op a

def filterMatchesAll (doc : Document) : List Filter → Except Status (List Bool)
  | [] => .ok []
  | filter :: filters => do
    let value ← filterMatches doc filter
    let values ← filterMatchesAll doc filters
    pure (value :: values)

end

mutual

def inequalityFields (fields : ExtTreeSet String) : Filter → ExtTreeSet String
  | .compositeFilter _ filters => inequalityFieldsAll fields filters
  | .fieldFilter (some field) op _ =>
    if op ∈ [1, 2, 3, 4, 6, 10] then fields.insert field else fields
  | .unaryFilter op (some field) => if op ∈ [4, 5] then fields.insert field else fields
  | _ => fields

def inequalityFieldsAll (fields : ExtTreeSet String) : List Filter → ExtTreeSet String
  | [] => fields
  | filter :: filters => inequalityFieldsAll (inequalityFields fields filter) filters

end

/-- An order field and whether it is descending. -/
abbrev OrderField := String × Bool

def explicitOrders (orderBy : List Order) : Except Status (List OrderField) :=
  orderBy.mapM fun order => match order.field with
    | none => .error (invalidArgument "order field required")
    | some field => .ok (field, order.direction == 2)

def lastDirection (orders : List OrderField) : Bool := (orders.getLast?.map Prod.snd).getD false

/-- The explicit orders, then the implicit inequality fields, then the name. -/
def effectiveOrders (orders : List OrderField) (filter : Option Filter) : List OrderField :=
  let inequalities := (filter.map fun f => (inequalityFields ∅ f).toList).getD []
  let descending := lastDirection orders
  let orders := inequalities.foldl (fun orders field =>
    if field != "__name__" && !orders.any (·.1 == field) then orders ++ [(field, descending)]
    else orders) orders
  if orders.any (·.1 == "__name__") then orders
  else orders ++ [("__name__", lastDirection orders)]

def directed (descending : Bool) (c : Ordering) : Ordering := if descending then c.swap else c

def firstUnequal (cmps : List Ordering) : Ordering := (cmps.find? (· != .eq)).getD .eq

/-- The value under an order field. The retained documents have one; elsewhere the
source would panic on `unwrap`. -/
def orderValue (doc : Document) (field : String) : Value := (fieldValue doc field).getD .unset

def compareDocuments (orders : List OrderField) (a b : Document) : Ordering :=
  firstUnequal (orders.map fun (field, desc) =>
    directed desc ((orderValue a field).compare (orderValue b field)))

def compareCursor (orders : List OrderField) (doc : Document) (values : List Value) : Ordering :=
  firstUnequal ((orders.zip values).map fun ((field, desc), v) =>
    directed desc ((orderValue doc field).compare v))

def applyCursor (orders : List OrderField) (start : Bool) (cursor : Option Cursor)
    (docs : List Document) : Except Status (List Document) :=
  match cursor with
  | none => .ok docs
  | some cursor =>
    if orders.length < cursor.values.length then
      .error (invalidArgument "too many cursor values")
    else .ok (docs.filter fun doc =>
      let cmp := compareCursor orders doc cursor.values
      if start then cmp.isGT || (cmp.isEq && cursor.before)
      else cmp.isLT || (cmp.isEq && !cursor.before))

def projectFields (source : Fields) : Fields → List String → Except Status Fields
  | fields, [] => .ok fields
  | fields, field :: select =>
    if field != "__name__" then do
      let path ← fieldPath field
      projectFields source (nestedSet fields path (nestedGet source path)) select
    else projectFields source fields select

def projectDocument (select : Option (List String)) (doc : Document) : Except Status Document :=
  match select with
  | none => .ok doc
  | some select => do
    let fields ← projectFields doc.fields [] select
    pure { doc with fields := fields }

/-- The documents the collection selector and the filter let through, in scan order. -/
def matchingDocuments (parent : String) (selector : CollectionSelector) (filter : Option Filter) :
    List Document → Except Status (List Document)
  | [] => .ok []
  | doc :: documents => do
    let keep ← if matchesCollection doc.name parent selector.collectionId selector.allDescendants
      then (match filter with
        | some f => filterMatches doc f
        | none => .ok true)
      else .ok false
    let docs ← matchingDocuments parent selector filter documents
    pure (if keep then doc :: docs else docs)

/-- The one collection selector of an acceptable query. -/
def querySelector (query : StructuredQuery) : Except Status CollectionSelector :=
  match query.from_ with
  | [selector] =>
    if selector.collectionId == "" then .error (invalidArgument "one collection is required")
    else if query.offset < 0 || query.limit.any (· < 0) then
      .error (invalidArgument "negative query bounds")
    else .ok selector
  | _ => .error (invalidArgument "one collection is required")

/-- The query over the scanned documents. `sort_by` is stable, as `insertionSort` is. -/
def evaluateQuery (documents : List Document) (parent : String) (selector : CollectionSelector)
    (query : StructuredQuery) : Except Status (List Document) := do
  let docs ← matchingDocuments parent selector query.where_ documents
  let explicit ← explicitOrders query.orderBy
  let orders := effectiveOrders explicit query.where_
  let docs := docs.filter fun d => orders.all fun (field, _) => (fieldValue d field).isSome
  let docs := docs.insertionSort fun a b => (compareDocuments orders a b).isLE
  let docs ← applyCursor orders true query.startAt docs
  let docs ← applyCursor orders false query.endAt docs
  let docs := (docs.drop query.offset.toNat).take (query.limit.getD (2 ^ 31 - 1)).toNat
  docs.mapM (projectDocument query.select)

end FirebaseEmu.Firestore
