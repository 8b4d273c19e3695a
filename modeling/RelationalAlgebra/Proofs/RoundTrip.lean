import RelationalAlgebra.Proofs.Agreement
import RelationalAlgebra.Proofs.Equivalence
import RelationalAlgebra.Proofs.Rebuilding

/-!
# The wire round trip

A relation that is sent and read back, wherever the same tables are declared, has the same wire
form again, the same columns and the same query: `ofWire_toWire`.  Read back where it came from, it
is equivalent to what was sent, unless a condition had an alias, which has no wire form.
-/

namespace RelationalAlgebra

open RelationalAlgebra.Relation RelationalAlgebra.Sql

namespace Algebra

variable {a b : Algebra} {r : Relation} {w : Json}

/-- The wire form of a relation is read back as a relation of the same wire form, the same columns
and the same query. -/
theorem ofWire_toWire (ha : a.Reachable) (hb : b.Reachable) (htables : a.SameTables b)
    (hnames : a.Separable) (hr : r ∈ a.relations) (hapart : r.Apart)
    (hyears : r.Conditions (Expr.Literals Value.FourDigitYear)) (hwire : r.toWire = .ok w) :
    ∃ r' b', (ofWire w).run b = .ok (r', b') ∧ r' ∈ b'.relations ∧ r'.toWire = .ok w ∧
      r'.columnNames = r.columnNames ∧
      (∃ c c', compile r = .ok c ∧ compile r' = .ok c' ∧ c'.sql = c.sql ∧
        c'.placeholders = c.placeholders) ∧
      (a = b → r.Conditions Expr.AliasFree → r.equivalent r' = true) := by
  obtain ⟨r', b', hrun, hbuilt⟩ := rebuilds ha.sound hnames hr hapart hyears hwire hb.sound htables
    (Nat.le_refl _)
  have hb' := hbuilt.grown.sound
  have hr' := hbuilt.grown.mem
  refine ⟨r', b', hrun, hr', ?_, hbuilt.alike.columnNames_eq, ?_, ?_⟩
  · rw [hbuilt.alike.toWire_eq, hwire]
  · exact sql_of_alike ha.sound hb' hbuilt.alike hr hr' hapart hbuilt.apart
  · rintro rfl hfree
    exact equivalent_of_alike hb' hbuilt.alike (hbuilt.grown.mono hr) hr' hfree

end Algebra

namespace Sample

/-- The tables of the short session alone, declared the other way round. -/
def swapped : Algebra := ⟨[.table { posts with id := 0 }, .table { blogs with id := 1 }]⟩

theorem swapped_reachable : swapped.Reachable := by
  refine .step (a := ⟨[.table { posts with id := 0 }]⟩) (.createTable "blogs" [("id", .integer)])
    (.step (.createTable "posts" [("id", .integer), ("blog_id", .integer)]) .empty ?_) ?_
  all_goals decide

theorem sameTables_swapped : algebra.SameTables swapped := by
  intro name
  by_cases hblogs : name = "blogs"
  · rw [hblogs]
    decide
  · by_cases hposts : name = "posts"
    · rw [hposts]
      decide
    · simp [Algebra.table?, swapped, algebra, first, firstPosts, Relation.table?, blogs, posts,
        Ne.symm hblogs, Ne.symm hposts]

theorem separable_algebra : algebra.Separable := by
  intro t ht
  rcases table_cases ht with rfl | rfl
  · decide
  · decide

/-- The first blog with its posts is read back, where it came from and elsewhere. -/
theorem ofWire_toWire_firstPosts : ∃ w, firstPosts.toWire = .ok w ∧
    (∃ r' b', (Algebra.ofWire w).run swapped = .ok (r', b') ∧
      r'.columnNames = ["id", "id", "blog_id"]) ∧
    ∃ r' b', (Algebra.ofWire w).run algebra = .ok (r', b') ∧ firstPosts.equivalent r' = true := by
  refine ⟨_, rfl, ?_, ?_⟩
  · obtain ⟨r', b', hrun, -, -, hnames, -⟩ := Algebra.ofWire_toWire reachable swapped_reachable
      sameTables_swapped separable_algebra (show firstPosts ∈ algebra.relations by decide)
      ⟨trivial, trivial, by decide⟩ ⟨⟨trivial, trivial, trivial⟩, trivial, trivial, trivial⟩ rfl
    exact ⟨r', b', hrun, hnames.trans (by decide)⟩
  · obtain ⟨r', b', hrun, -, -, -, -, hequivalent⟩ := Algebra.ofWire_toWire reachable reachable
      (fun _ => rfl) separable_algebra (show firstPosts ∈ algebra.relations by decide)
      ⟨trivial, trivial, by decide⟩ ⟨⟨trivial, trivial, trivial⟩, trivial, trivial, trivial⟩ rfl
    exact ⟨r', b', hrun, hequivalent rfl ⟨⟨trivial, rfl⟩, trivial, rfl⟩⟩

end Sample

end RelationalAlgebra
