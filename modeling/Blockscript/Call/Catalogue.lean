import Blockscript.Table

/-!
# Method catalogues

A `Catalogue` lists the inputs that the methods of each product take. Looking up a method fails when
the product or the method is not in it; a remote catalogue may also be out of reach.
-/

namespace Blockscript

/-- An input that a method takes. -/
structure InputField where
  name : String
  type : String
  deriving DecidableEq, Repr

/-- Why the inputs of a method are not known. -/
inductive SchemaError where
  | unavailable (why : String)
  | unknownMethod (product method : String)
  deriving DecidableEq, Repr

/-- The text of an error. -/
def SchemaError.message : SchemaError → String
  | .unavailable why => "Method schema service unavailable: " ++ why
  | .unknownMethod product method => "Product '" ++ product ++ "' has no method '" ++ method ++ "'"

/-- The inputs of the methods of each product. -/
structure Catalogue where
  products : Table (Table (List InputField)) := {}
  deriving Repr

namespace Catalogue

/-- The catalogue with the inputs of one method set. -/
def withMethod (c : Catalogue) (product method : String) (fields : List InputField) : Catalogue :=
  ⟨c.products.put product (((c.products.get? product).getD {}).put method fields)⟩

/-- The inputs of a method. -/
def lookup (c : Catalogue) (product method : String) : Except SchemaError (List InputField) :=
  match (c.products.get? product).bind (·.get? method) with
  | some fields => .ok fields
  | none => .error (.unknownMethod product method)

/-- A method that was set is found, and all others are as before. -/
theorem lookup_withMethod (c : Catalogue) (product method : String) (fields : List InputField)
    (product' method' : String) :
    (c.withMethod product method fields).lookup product' method' =
      if product' = product ∧ method' = method then .ok fields else c.lookup product' method' := by
  by_cases hp : product' = product
  · subst hp
    rw [lookup, withMethod, Table.get?_put, if_pos rfl, Option.bind_some, Table.get?_put]
    by_cases hm : method' = method
    · rw [if_pos hm, if_pos ⟨rfl, hm⟩]
    · rw [if_neg hm, if_neg fun h => hm h.2, lookup]
      cases c.products.get? product' <;> rfl
  · rw [lookup, withMethod, Table.get?_put, if_neg hp, if_neg fun h => hp h.1, lookup]

end Catalogue

end Blockscript
