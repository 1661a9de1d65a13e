import PromptChain.Value.Access
/-!
# Catalogs

A provider knows its models by labels, and one label is in use.  Labels and models are texts as a
rule, but passed on as whatever data they are.
-/

namespace PromptChain

structure Catalog where
  /-- The name of the provider, by which its faults are reported. -/
  name : String
  /-- The name of the provider as it is shown. -/
  title : String
  models : Table Value
  label : Value
  known : (models.get? label).isSome

namespace Catalog

def select (name title : String) (models : Table Value) (label : Value) : Except Fault Catalog :=
  match label.asKey with
  | .error e => .error e
  | .ok label =>
    if known : (models.get? label).isSome then .ok { name, title, models, label, known }
    else
      match label.plain with
      | .error e => .error e
      | .ok shown => .error (.unknownModel name (String.ofList shown))

def start (name title : String) (models : Table Value) (default : String) (label : Value) :
    Except Fault Catalog :=
  select name title models (if label.isFalsy then .text default else label)

def model (c : Catalog) : Value := (c.models.get? c.label).get c.known

def use (c : Catalog) (label : Value) : Except Fault Catalog :=
  select c.name c.title c.models label

def addModel (c : Catalog) (label model : Value) : Except Fault Catalog :=
  label.asKey.map fun label =>
    { c with
      models := c.models.put label model
      known := Table.isSome_get?_put label model c.known }

def shown (c : Catalog) : Except Fault String :=
  c.label.literal.map fun label => c.title ++ "(model=" ++ String.ofList label ++ ")"

end Catalog

end PromptChain
