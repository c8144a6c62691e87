import ApiAnnotation.Proofs.Compile.Origin
import ApiAnnotation.Proofs.Directive.NormalForm

/-!
# The paths and methods of a source

A path and a method of a fragment are what a `@route` directive says. Its text may go on behind
them and over several lines, and lines are joined by line feeds, while the text is cut at spaces
only. So what follows a space never gets into a path or into a method, and what follows other white
space does: a description on the next line is taken for a part of the path.

What a route is written as (`ApiAnnotation.Route.WrittenIn`) is said without cutting the text into
pieces. The path is found as it stands. The method is put into lower case, which leaves white space
as it is (`ApiAnnotation.Text.filter_isBlank_toLower`), so no space comes in this way either.

## Main statements

* `ApiAnnotation.Route.writtenIn_ofText`: a text of a route says its path and its method.
* `ApiAnnotation.Fragment.Describes.keysWritten`: the paths and methods that directives describe.
* `ApiAnnotation.Fragment.keysWritten_of_compileSource`: the paths and methods of a source.
-/

namespace ApiAnnotation

open Text

/-! ### What a text says -/

/-- **A route is written in a text**, its path between the first two spaces and its method before
the first one. -/
structure Route.WrittenIn (text : String) (route : Route) : Prop where
  /-- The path is found as it stands, and it is empty where there is no space. -/
  uri : route.uri = (secondPart? ' ' text).getD ""
  /-- The method is found in any case, or there is none. -/
  method : route.method =
    let lowered := String.ofList (toLower (firstPart ' ' text).toList)
    if lowered = "" then defaultMethod else lowered
  /-- The white space of the method is that of the text before the first space. -/
  method_isBlank : route.method.toList.filter isBlank = (firstPart ' ' text).toList.filter isBlank
  /-- No space is left in the path. -/
  uri_space : ' ' ∉ route.uri.toList
  /-- Nor in the method. -/
  method_space : ' ' ∉ route.method.toList

namespace Route

variable {text : String} {route : Route} {c : Char}

/-- **A text of a route says its path and its method.** -/
theorem writtenIn_ofText (text : String) : WrittenIn text (ofText text) := by
  have hnormal := normal_ofText text
  refine ⟨by rw [ofText_eq], by rw [ofText_eq], ?_, hnormal.uri_space, hnormal.method_space⟩
  rw [ofText_eq, ← filter_isBlank_toLower (firstPart ' ' text).toList]
  dsimp only
  split
  · next hempty =>
    -- the method that is made up has no white space, and neither has the empty one it stands for
    rw [String.ofList_eq_empty_iff.mp hempty]
    decide
  · rw [String.toList_ofList]

/-- The white space of a route is found in its text. -/
theorem WrittenIn.mem_text (h : route.WrittenIn text)
    (hc : c ∈ route.uri.toList ∨ c ∈ route.method.toList) (hblank : isBlank c = true) :
    c ∈ text.toList := by
  rcases hc with hc | hc
  · rw [h.uri] at hc
    rcases hsecond : secondPart? ' ' text with _ | part
    · rw [hsecond] at hc
      exact absurd hc List.not_mem_nil
    · rw [hsecond] at hc
      exact mem_of_mem_segments (mem_segments_of_secondPart? hsecond) hc
  · have hfirst : c ∈ (firstPart ' ' text).toList.filter isBlank :=
      h.method_isBlank ▸ List.mem_filter.mpr ⟨hc, hblank⟩
    exact mem_of_mem_segments (firstPart_mem_segments ' ' text) (List.mem_filter.mp hfirst).1

/-- **A route has no white space if its text has none but spaces.** -/
theorem WrittenIn.isBlank_eq_false (h : route.WrittenIn text)
    (htext : ∀ c ∈ text.toList, isBlank c = true → c = ' ')
    (hc : c ∈ route.uri.toList ∨ c ∈ route.method.toList) : isBlank c = false := by
  by_contra hblank
  rw [Bool.not_eq_false] at hblank
  obtain rfl := htext c (h.mem_text hc hblank) hblank
  exact hc.elim h.uri_space h.method_space

end Route

/-! ### The keys of a fragment -/

/-- **The keys of a fragment are written in directives**: there is no path without a method, and
each method is written along with its path in a route. -/
structure Fragment.KeysWritten (f : Fragment) (ds : List Directive) : Prop where
  /-- Every path has a method. -/
  uri : ∀ uri ∈ SortedMap.keys f.paths, ∃ method, (uri, method) ∈ f.paths.slots
  /-- A path and its method are written in a route. -/
  slot : ∀ uri method, (uri, method) ∈ f.paths.slots →
    ∃ d ∈ ds, d.title = "route" ∧ Route.WrittenIn d.description ⟨method, uri⟩

/-- **Whether the keys of a fragment are free of white space**, its paths and its methods. -/
def Fragment.KeysUnbroken (f : Fragment) : Prop :=
  (∀ uri ∈ SortedMap.keys f.paths, ∀ c ∈ uri.toList, isBlank c = false) ∧
    ∀ uri method, (uri, method) ∈ f.paths.slots → ∀ c ∈ method.toList, isBlank c = false

namespace Fragment

variable {block : Block} {ds : List Directive} {f : Fragment}

/-- **The paths and methods that directives describe.** -/
theorem Describes.keysWritten (h : f.Describes block ds) : f.KeysWritten ds := by
  refine ⟨fun uri huri => ?_, fun uri method hslot => ?_⟩
  · obtain ⟨⟨method, uri⟩, hroute, rfl⟩ := (h.uris uri).mp huri
    refine ⟨method, Paths.mem_slots.mpr ?_⟩
    rw [← Fragment.operation?, h.operation?, if_pos hroute]
    rfl
  · rw [Paths.mem_slots, ← Fragment.operation?, h.operation?] at hslot
    split at hslot
    · next hroute =>
      obtain ⟨d, hd, hwritten⟩ := List.mem_map.mp hroute
      obtain ⟨hmem, htitle⟩ := List.mem_filter.mp hd
      exact ⟨d, hmem, of_decide_eq_true htitle, hwritten ▸ Route.writtenIn_ofText d.description⟩
    · cases hslot

/-- The definition of a schema has no paths. -/
theorem keysWritten_toFragment (typedef : Typedef) (ds : List Directive) :
    typedef.toFragment.KeysWritten ds :=
  ⟨fun _ h => absurd h List.not_mem_nil, fun _ _ h => absurd h List.not_mem_nil⟩

/-- The paths and methods of a block. -/
theorem keysWritten_of_fragment? (h : block.fragment? = some f) :
    f.KeysWritten block.directives := by
  rcases Block.typedef_or_describes h with ⟨-, typedef, -, rfl⟩ | hdescribes
  · exact keysWritten_toFragment typedef _
  · exact hdescribes.keysWritten

/-- **The keys have no white space if the routes have none but spaces.** -/
theorem KeysWritten.keysUnbroken (h : f.KeysWritten ds)
    (hds : ∀ d ∈ ds, d.title = "route" → ∀ c ∈ d.description.toList, isBlank c = true → c = ' ') :
    f.KeysUnbroken := by
  have hslot : ∀ uri method, (uri, method) ∈ f.paths.slots →
      ∀ c, c ∈ uri.toList ∨ c ∈ method.toList → isBlank c = false := by
    intro uri method hmem c hc
    obtain ⟨d, hd, htitle, hwritten⟩ := h.slot uri method hmem
    exact hwritten.isBlank_eq_false (hds d hd htitle) hc
  refine ⟨fun uri huri c hc => ?_, fun uri method hmem c hc => hslot uri method hmem c (.inr hc)⟩
  obtain ⟨method, hmem⟩ := h.uri uri huri
  exact hslot uri method hmem c (.inl hc)

/-! ### The keys of a source -/

/-- **The paths and methods of a source**: they are written in the routes of a comment, and they
have no white space if these have none but spaces. -/
theorem keysWritten_of_compileSource {file source : String} {fs : List Fragment}
    (h : compileSource file source = .ok fs) :
    ∀ f ∈ fs, ∃ block ∈ Block.ofSource source, block.fragment? = some f ∧
      f.KeysWritten block.directives ∧
      ((∀ d ∈ block.directives, d.title = "route" →
        ∀ c ∈ d.description.toList, isBlank c = true → c = ' ') → f.KeysUnbroken) := by
  intro f hf
  obtain ⟨block, hblock, hfragment⟩ := exists_of_mem_compileSource h hf
  have hwritten := keysWritten_of_fragment? hfragment
  exact ⟨block, hblock, hfragment, hwritten, hwritten.keysUnbroken⟩

/-- What is found of the fragments of a source is found of fragments that it compiles to. -/
theorem exists_compileSource_of_map {α : Type} {file source : String} {g : List Fragment → α}
    {a : α} (h : (compileSource file source).toOption.map g = some a) :
    ∃ fs, compileSource file source = .ok fs ∧ g fs = a := by
  obtain ⟨fs, hfs, hg⟩ := Option.map_eq_some_iff.mp h
  rcases hcompile : compileSource file source with e | fs'
  · rw [hcompile] at hfs
    cases hfs
  · rw [hcompile] at hfs
    exact ⟨fs', rfl, Option.some.inj hfs ▸ hg⟩

/-- A description goes on behind the path and on the next line, and a tab stands in a method. -/
theorem keysWritten_of_compileSource_pets :
    let source := "/** @route GET /pets List of\n * pets. */ /** @route A\tB /\n */"
    ∃ fs, compileSource "a.js" source = .ok fs ∧
      fs.map (·.paths.slots) = [[("/pets", "get")], [("/", "a\tb")]] ∧
      ∀ f ∈ fs, ∃ block ∈ Block.ofSource source, f.KeysWritten block.directives := by
  intro source
  have hslots : (compileSource "a.js" source).toOption.map (List.map (·.paths.slots)) =
      some [[("/pets", "get")], [("/", "a\tb")]] := by
    decide +kernel
  obtain ⟨fs, hcompile, hslots⟩ := exists_compileSource_of_map hslots
  refine ⟨fs, hcompile, hslots, fun f hf => ?_⟩
  obtain ⟨block, hblock, -, hwritten, -⟩ := keysWritten_of_compileSource hcompile f hf
  exact ⟨block, hblock, hwritten⟩

/-- **A description that follows on the next line is taken for a part of the path.** -/
theorem not_keysUnbroken_next_line :
    let source := "/** @route GET /pets\n * List of pets. */"
    ∃ fs, compileSource "a.js" source = .ok fs ∧
      ∃ f ∈ fs, SortedMap.keys f.paths = ["/pets\nList"] ∧ ¬f.KeysUnbroken := by
  intro source
  have hkeys : (compileSource "a.js" source).toOption.map
      (List.map fun f => SortedMap.keys f.paths) = some [["/pets\nList"]] := by
    decide +kernel
  obtain ⟨fs, hcompile, hkeys⟩ := exists_compileSource_of_map hkeys
  obtain ⟨f, rfl, hf⟩ := List.map_eq_singleton_iff.mp hkeys
  refine ⟨[f], hcompile, f, List.mem_singleton_self f, hf, fun hunbroken => ?_⟩
  have hbreak := hunbroken.1 "/pets\nList" (hf ▸ List.mem_singleton_self _) '\n' (by decide)
  exact absurd hbreak (by decide)

end Fragment

end ApiAnnotation
