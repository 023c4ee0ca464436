namespace RuleForest.Text

def splitAt (separator : Char) : List Char → List (List Char)
  | [] => [[]]
  | c :: s =>
    if c = separator then
      [] :: splitAt separator s
    else
      match splitAt separator s with
      | [] => [[c]]
      | w :: ws => (c :: w) :: ws

def replaceAll {α : Type} [DecidableEq α] (word filler : List α) : List α → List α
  | [] => []
  | c :: s =>
    if word.isPrefixOf (c :: s) then
      filler ++ replaceAll word filler (s.drop (word.length - 1))
    else
      c :: replaceAll word filler s
termination_by s => s.length
decreasing_by all_goals simp only [List.length_drop, List.length_cons]; omega

end RuleForest.Text
