import LineCalc.Cursor

/-!
# The token feed of a text

Reading a text again and again gives a sequence of outcomes: tokens, and failures after which
reading goes on. It ends in an outcome that repeats for ever, the end of the text or a character
that starts no token. A `Feed` is such a sequence.
-/

namespace LineCalc

/-- A sequence of outcomes that is constant from some point on. -/
structure Feed where
  /-- The outcomes before the constant part. -/
  pending : List Outcome
  /-- The outcome that repeats. -/
  final : Outcome

namespace Feed

/-- The first outcome, and the feed after it. -/
def next (feed : Feed) : Outcome × Feed :=
  match feed.pending with
  | [] => (feed.final, feed)
  | outcome :: rest => (outcome, { feed with pending := rest })

/-- The same feed with one more outcome in front. -/
def cons (outcome : Outcome) (feed : Feed) : Feed :=
  { feed with pending := outcome :: feed.pending }

end Feed

/-- All that a cursor will read. -/
def Cursor.feed (c : Cursor) : Feed :=
  if Outcome.isFinal c.next.1 then ⟨[], c.next.1⟩
  else (Cursor.feed c.next.2).cons c.next.1
termination_by c.rest.length
decreasing_by
  rename_i h
  exact Cursor.length_rest_next_lt (by simpa using h)

/-- All that can be read from a text. -/
def Feed.ofText (text : String) : Feed := (Cursor.ofText text).feed

/-- The tokens at the front of a list of outcomes, and the failure that follows them, if any. -/
def leadingTokens : List Outcome → List Token → List Token × Option (Failure LexError)
  | [], seen => (seen.reverse, none)
  | .ok token :: rest, seen => leadingTokens rest (token :: seen)
  | .error failure :: _, seen => (seen.reverse, some failure)

/-- The tokens of a feed up to the end of the text, or up to the first failure, which is then given
too. -/
def Feed.tokens (feed : Feed) : List Token × Option (Failure LexError) :=
  leadingTokens (feed.pending ++ [feed.final]) []

end LineCalc
