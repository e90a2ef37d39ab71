import Demarcate.Clock
import Demarcate.Ulid
/-!
# Fresh — counts that no text mentions

Identifiers are issued, and the clock is read, by counting.  A text from outside may hold what the count would come to,
and would then be taken for something issued here.  So the counts start above every one that such texts mention:
`Ulid.counts_lt_firstFresh` and `Clock.counts_lt_firstFresh` say that they do.
-/
namespace Demarcate

/-- The least number above all numbers of a list. -/
def firstAbove : List Nat → Nat
  | [] => 0
  | n :: ns => max (n + 1) (firstAbove ns)

theorem lt_firstAbove {n : Nat} : ∀ {ns : List Nat}, n ∈ ns → n < firstAbove ns
  | m :: ns, h => by
    rcases List.mem_cons.1 h with rfl | h
    · simp only [firstAbove]; omega
    · have := lt_firstAbove h
      simp only [firstAbove]; omega

namespace Ulid

/-- The counts of the identifiers that stand in a text, in either case. -/
def counts : List Char → List Nat
  | [] => []
  | c :: cs => (issuedIn? perMillisecond (((c :: cs).take width).map Char.toUpper)).toList ++ counts cs

/-- The first count from which no identifier stands in one of the texts. -/
def firstFresh (texts : List String) : Nat := firstAbove (texts.flatMap fun t => counts t.toList)

theorem counts_lt_firstFresh {texts : List String} {t : String} {n : Nat} (ht : t ∈ texts) (hn : n ∈ counts t.toList) :
    n < firstFresh texts :=
  lt_firstAbove (List.mem_flatMap.2 ⟨t, ht, hn⟩)

end Ulid

namespace Clock

/-- The count of the reading that a text begins with. -/
def countAt? (cs : List Char) : Option Nat :=
  let shown := lead ++ (cs.drop lead.length).takeWhile Char.isDigit ++ tail
  if shown.isPrefixOf cs then reading? (String.ofList shown) else none

/-- The counts of the readings that stand in a text. -/
def counts : List Char → List Nat
  | [] => []
  | c :: cs => (countAt? (c :: cs)).toList ++ counts cs

/-- The first count from which no reading stands in one of the texts. -/
def firstFresh (texts : List String) : Nat := firstAbove (texts.flatMap fun t => counts t.toList)

theorem counts_lt_firstFresh {texts : List String} {t : String} {n : Nat} (ht : t ∈ texts) (hn : n ∈ counts t.toList) :
    n < firstFresh texts :=
  lt_firstAbove (List.mem_flatMap.2 ⟨t, ht, hn⟩)

end Clock
end Demarcate
