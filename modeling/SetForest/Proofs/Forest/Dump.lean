import SetForest.Forest.Report
import SetForest.Proofs.Forest.Similar

namespace SetForest

/-!
# Dumps

The first line of a dump names the storage strategy.  All that follows it is a
function of the sets and of the tables.  The entries of a table may be listed in any
order for that, because they are put in the order of their keys before they are shown
(`Forest.dump_eq`).
-/

namespace Table

variable {κ β : Type} [Key κ]

/-- Entries in the order of their keys. -/
def inOrder (listing : List (κ × β)) : List (κ × β) :=
  listing.mergeSort fun first second => (compare first.1 second.1).isLE

/-- However the entries of a table are listed, their keys put them in one order. -/
theorem inOrder_eq {table : Table κ β} {listing : List (κ × β)}
    (listed : listing.Perm table.toList) : inOrder listing = table.toList := by
  have sorted := table.pairwise_toList
  have inListing : (inOrder listing).Pairwise
      (fun first second => (compare first.1 second.1).isLE = true) :=
    List.pairwise_mergeSort (fun _ _ _ => Std.TransCmp.isLE_trans)
      (fun first second => by
        have swapped : compare second.1 first.1 = (compare first.1 second.1).swap :=
          Std.OrientedCmp.eq_swap
        rw [swapped]
        cases compare first.1 second.1 <;> rfl) listing
  have inTable : table.toList.Pairwise
      (fun first second => (compare first.1 second.1).isLE = true) :=
    sorted.imp fun below => by rw [below]; rfl
  refine List.Perm.eq_of_pairwise ?_ inListing inTable ((List.mergeSort_perm _ _).trans listed)
  rintro ⟨key, value⟩ ⟨key', value'⟩ member member' below above
  have sameKey : key = key' :=
    Std.LawfulEqOrd.eq_of_compare (Std.OrientedCmp.isLE_antisymm below above)
  subst key'
  have found := (table.mem_toList_iff key value).mp
    (listed.mem_iff.mp ((List.mergeSort_perm _ _).mem_iff.mp member))
  have found' := (table.mem_toList_iff key value').mp member'
  rw [found] at found'
  cases found'
  rfl

end Table

/-- The first line of a dump. -/
def Strategy.heading (strategy : Strategy) : String :=
  s!"LatticeHashForest ({strategy.name}):\n"

namespace Forest

variable {K : Type} [Key K] {n : Nat} [ToString K]

/-- What a dump shows below its first line, from listings of the tables. -/
def dumpBody (forest : Forest K n) (unions intersections differences : List (Operands × Index))
    (inclusions : List (Operands × Inclusion)) : String :=
  let results (listing : List (Operands × Index)) :=
    (Table.inOrder listing).map fun (pair, result) => dumpEntry pair (toString result)
  let relations :=
    (Table.inOrder inclusions).map fun (pair, relation) => dumpEntry pair relation.abbreviation
  dumpSection "PropertySets" ((List.range forest.size).map forest.dumpSet) ++
    dumpSection "Unions" (results unions) ++
    dumpSection "Intersections" (results intersections) ++
    dumpSection "Differences" (results differences) ++
    dumpSection "Subsets" relations

/-- A dump can be made from any listings of the tables. -/
theorem dump_eq (forest : Forest K n)
    {unions intersections differences : List (Operands × Index)}
    {inclusions : List (Operands × Inclusion)} (unionsListed : unions.Perm forest.unions.toList)
    (intersectionsListed : intersections.Perm forest.intersections.toList)
    (differencesListed : differences.Perm forest.differences.toList)
    (inclusionsListed : inclusions.Perm forest.inclusions.toList) :
    forest.dump = forest.strategy.heading ++
      forest.dumpBody unions intersections differences inclusions := by
  unfold dump dumpBody Strategy.heading
  dsimp only
  rw [Table.inOrder_eq unionsListed, Table.inOrder_eq intersectionsListed,
    Table.inOrder_eq differencesListed, Table.inOrder_eq inclusionsListed]
  generalize dumpSection "PropertySets" _ = sets
  generalize dumpSection "Unions" _ = unions
  generalize dumpSection "Intersections" _ = intersections
  generalize dumpSection "Differences" _ = differences
  generalize dumpSection "Subsets" _ = inclusions
  simp only [String.append_assoc]

/-- Forests that resemble each other exactly show the same below their first lines. -/
theorem Similar.dumpBody {sim : Resemblance (Element K)} {x y : Forest K n}
    (similar : Similar sim x y) (isExact : sim.exact)
    (unions intersections differences : List (Operands × Index))
    (inclusions : List (Operands × Inclusion)) :
    x.dumpBody unions intersections differences inclusions =
      y.dumpBody unions intersections differences inclusions := by
  have shown : x.dumpSet = y.dumpSet := by
    funext index
    have read : x.sets.get index = y.sets.get index :=
      (sim.get _ _ similar.sets index).resolve_right fun inexact => inexact.1 isExact
    rw [dumpSet, dumpSet, read]
  simp only [Forest.dumpBody, similar.size, shown]

end Forest

end SetForest
