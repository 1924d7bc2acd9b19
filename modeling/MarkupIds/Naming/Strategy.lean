import MarkupIds.Naming.Identifier

/-!
# Naming strategies

How words are joined into one identifier. Every strategy carries the same words.
-/

namespace MarkupIds

/-- Why a function that came with the configuration gave no answer. -/
inductive Failure where
  /-- The function stopped with a message of its own. -/
  | raised (message : Text)
  /-- What stands in place of a function is none. -/
  | notCallable (kind : Text)
  /-- What stands in place of a text is none. -/
  | notText (kind : Text)
  /-- Every identifier of the conflict ladder is taken. -/
  | exhausted (candidate : Text)
deriving DecidableEq, Repr

def Failure.message : Failure → Text
  | .raised message => message
  | .notCallable kind => "'".toList ++ kind ++ "' object is not callable".toList
  | .notText kind => "'".toList ++ kind ++ "' object has no attribute 'lower'".toList
  | .exhausted candidate => "no free identifier for ".toList ++ candidate

namespace Naming

inductive Strategy where
  | kebab
  | camel
  | snake
  /-- The words in kebab case, changed by a function. -/
  | custom (transform : Text → Except Failure Text)

namespace Strategy

def separator : Strategy → Text
  | .snake => ['_']
  | .camel => []
  | .kebab | .custom _ => ['-']

/-- The non-empty words between hyphens; entries without any word stand for themselves. -/
def wordsOf (entries : List Text) : List Text :=
  match (entries.flatMap (Text.split '-')).filter (!·.isEmpty) with
  | [] => entries
  | words => words

def capitalize : Text → Text
  | [] => []
  | c :: cs => Text.upperChar c ++ Text.lower cs

def joinCamel : List Text → Text
  | [] => []
  | w :: ws => Text.lower w ++ ws.flatMap capitalize

/-- Joins entries. Empty and repeated entries are dropped, and no entries give the fallback. -/
def combine (s : Strategy) (entries : List Text) : Except Failure Text :=
  match Text.dedup (entries.filter (!·.isEmpty)) with
  | [] => .ok fallback
  | unique =>
    match s with
    | .kebab => .ok (Text.join ['-'] unique)
    | .camel => .ok (joinCamel (wordsOf unique))
    | .snake => .ok (Text.join ['_'] (wordsOf unique))
    | .custom transform => transform (Text.join ['-'] unique)

/-- Puts `lead` in front of an identifier with the strategy's separator. -/
def qualify (s : Strategy) (lead id : Text) : Text :=
  lead ++ s.separator ++ id

end Strategy

end Naming

end MarkupIds
