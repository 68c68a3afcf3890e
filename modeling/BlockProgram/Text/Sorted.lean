/-! Sorted lists without repetitions. -/
namespace BlockProgram.Text

variable {α : Type} [LT α] [DecidableLT α] [DecidableEq α]

def insertSorted (a : α) : List α → List α
  | [] => [a]
  | b :: rest =>
    if a < b then a :: b :: rest else if a = b then b :: rest else b :: insertSorted a rest

def sortedOnce (values : List α) : List α := values.foldl (fun sorted a => insertSorted a sorted) []

end BlockProgram.Text
