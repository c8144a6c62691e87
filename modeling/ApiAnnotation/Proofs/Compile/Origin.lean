import ApiAnnotation.Proofs.Compile.FirstNameless
import ApiAnnotation.Proofs.Draft.Course

/-!
# Where a fragment comes from

A fragment that blocks or a source compile to is the fragment of one of the blocks. It is of one of
two kinds, and nothing else has to be known about it: it is the definition of a block that defines a
schema, or it is what the directives of the block describe.

## Main statements

* `ApiAnnotation.Fragment.Compiled.exists_block`: a compiled fragment is that of a block.
* `ApiAnnotation.Block.typedef_or_describes`: the two kinds of fragments of a block.
-/

namespace ApiAnnotation

universe u v

/-- What a walk that succeeds has gathered was found at one of the items. -/
theorem exists_of_mem_mapM {α : Type u} {β : Type v} {f : α → Option β} {l : List α} {bs : List β}
    {b : β} (h : l.mapM f = some bs) (hb : b ∈ bs) : ∃ a ∈ l, f a = some b := by
  induction l generalizing bs with
  | nil =>
    rw [List.mapM_nil] at h
    obtain rfl : [] = bs := Option.some.inj h
    exact absurd hb List.not_mem_nil
  | cons a l ih =>
    rw [List.mapM_cons] at h
    obtain ⟨first, hfirst, hrest⟩ := Option.bind_eq_some_iff.mp h
    obtain ⟨rest, hl, hbs⟩ := Option.bind_eq_some_iff.mp hrest
    obtain rfl : first :: rest = bs := Option.some.inj hbs
    rcases List.mem_cons.mp hb with rfl | hb
    · exact ⟨a, List.mem_cons_self, hfirst⟩
    · obtain ⟨a', ha', hfa'⟩ := ih hl hb
      exact ⟨a', List.mem_cons_of_mem a ha', hfa'⟩

/-- **A fragment that blocks or a source are compiled to.** -/
inductive Fragment.Compiled : Fragment → Prop
  /-- It is one of those of some blocks. -/
  | ofBlocks {blocks : List Block} {fs : List Fragment} {f : Fragment} :
    compile? blocks = some fs → f ∈ fs → Compiled f
  /-- It is one of those of a source. -/
  | ofSource {file source : String} {fs : List Fragment} {f : Fragment} :
    compileSource file source = .ok fs → f ∈ fs → Compiled f

variable {block : Block} {blocks : List Block} {f : Fragment} {fs : List Fragment}

theorem exists_of_mem_compile? (h : compile? blocks = some fs) (hf : f ∈ fs) :
    ∃ block ∈ blocks, block.fragment? = some f := by
  obtain ⟨block, hblock, hfragment⟩ := exists_of_mem_mapM h hf
  exact ⟨block, (List.mem_filter.mp hblock).1, hfragment⟩

theorem exists_of_mem_compileSource {file source : String} (h : compileSource file source = .ok fs)
    (hf : f ∈ fs) : ∃ block ∈ Block.ofSource source, block.fragment? = some f := by
  have hcompile := compile?_ofSource file source
  rw [h] at hcompile
  exact exists_of_mem_compile? hcompile hf

/-- A compiled fragment is that of a block. -/
theorem Fragment.Compiled.exists_block (h : f.Compiled) :
    ∃ block : Block, block.fragment? = some f := by
  cases h with
  | ofBlocks hcompile hf =>
    obtain ⟨block, -, hfragment⟩ := exists_of_mem_compile? hcompile hf
    exact ⟨block, hfragment⟩
  | ofSource hcompile hf =>
    obtain ⟨block, -, hfragment⟩ := exists_of_mem_compileSource hcompile hf
    exact ⟨block, hfragment⟩

/-- **The two kinds of fragments**: a block defines a schema, or its directives describe
operations. -/
theorem Block.typedef_or_describes (h : block.fragment? = some f) :
    (block.isTypedef = true ∧ ∃ typedef,
      Typedef.ofDirectives? block.directives = some typedef ∧ f = typedef.toFragment) ∨
      f.Describes block block.directives := by
  by_cases htypedef : block.isTypedef = true
  · rw [fragment?, if_pos htypedef] at h
    obtain ⟨typedef, hdefinition, rfl⟩ := Option.map_eq_some_iff.mp h
    exact Or.inl ⟨htypedef, typedef, hdefinition, rfl⟩
  · obtain ⟨f', hf', hdescribes⟩ :=
      Draft.exists_fragment?_describes (Bool.eq_false_iff.mpr htypedef)
    obtain rfl := Option.some.inj (hf'.symm.trans h)
    exact Or.inr hdescribes

end ApiAnnotation
