import RdfMapping.Text.TextSet

/-!
A sink for the lines of partitions, sorted by label.

Lines written under one label add up. A sink may refuse a label; it then keeps what it has.
-/

namespace RdfMapping

/-- The lines written so far, by label in ascending order, and the labels that are refused. -/
structure Sink where
  shelves : List (String × TextSet) := []
  refuses : String → Bool := fun _ => false

namespace Sink

/-- Adds lines to the shelf of a label. -/
def put (label : String) (lines : TextSet) : List (String × TextSet) → List (String × TextSet)
  | [] => [(label, lines)]
  | (other, kept) :: rest =>
    if label < other then (label, lines) :: (other, kept) :: rest
    else if other < label then (other, kept) :: put label lines rest
    else (other, kept ∪ lines) :: rest

def write? (s : Sink) (label : String) (lines : TextSet) : Option Sink :=
  if s.refuses label then none else some { s with shelves := put label lines s.shelves }

def labels (s : Sink) : List String := s.shelves.map (·.1)

def partition? (s : Sink) (label : String) : Option TextSet := s.shelves.lookup label

def unified (s : Sink) : TextSet := s.shelves.foldl (fun all shelf => all ∪ shelf.2) ∅

end Sink

end RdfMapping
