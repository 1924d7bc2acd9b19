import MarkupIds.Config.Settings

/-!
# Configurations

What the settings of a run mean: values of the kinds that the work needs.
-/

namespace MarkupIds

structure Config where
  attributeName : Text := "data-testid".toList
  frameworks : List Text := ["react".toList, "vue".toList]
  strategy : Naming.Strategy := .kebab
  /-- Put in front of every identifier, if it is filled. -/
  lead : Option Text := some "test".toList
  /-- The tags that get identifiers, in lower case, or why they cannot be told. -/
  includes : Except Failure (List Text) :=
    .ok ("button input select textarea form a div span".toList |> Text.split ' ')
  rules : List Rule := []
  limit : Int := 50
  preserveExisting : Bool := true

namespace Config

/-- The strategy of a name. Unknown names mean kebab case, and so does a custom strategy without
a function. -/
def strategyNamed (type : Value) (transform : Value) : Naming.Strategy :=
  match type with
  | .text t =>
    if t == "camelCase".toList then .camel
    else if t == "snake_case".toList then .snake
    else if t == "custom".toList && transform.isFilled then
      match transform with
      | .transform f => .custom f
      | v => .custom fun _ => .error (.notCallable v.kindName)
    else .kebab
  | _ => .kebab

def RuleSetting.toRule (r : RuleSetting) : Rule where
  selector := r.selector.plain
  generator :=
    match r.generator with
    | .generator f => f
    | v => fun _ _ => .error (.notCallable v.kindName)
  priority :=
    match r.priority with
    | .int n => n
    | _ => 0

/-- The configuration that settings stand for. -/
def ofSettings (s : Settings) : Config where
  attributeName := s.attributeName.plain
  frameworks := s.frameworks.map (·.plain)
  strategy := strategyNamed s.strategyType s.transform
  lead := s.lead.answer?
  includes := s.includes
  rules := s.customRules.map (·.toRule)
  limit := s.maxIdLength
  preserveExisting := s.preserveExisting.isFilled

end Config

end MarkupIds
