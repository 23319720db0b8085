import Mathlib.Logic.Basic

/-!
# Request classes and the bounded capacities that go with them

Every embedding request is either an interactive query or a bulk request. The native
engine and the per-user server keep one bounded queue for each class.
-/

set_option autoImplicit false

namespace CodeStory

inductive EmbeddingRequestClass where
  | query
  | bulk
  deriving DecidableEq, Repr

def EmbeddingRequestClass.other : EmbeddingRequestClass → EmbeddingRequestClass
  | .query => .bulk
  | .bulk => .query

def embeddingQueryQueueCapacity : Nat := 64

def embeddingBulkQueueCapacity : Nat := 64

end CodeStory
