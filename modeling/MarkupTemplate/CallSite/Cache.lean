import MarkupTemplate.CallSite.Compile
import MarkupTemplate.Entries

/-!
# Caching templates

The templates of call sites are kept by the identity of the site. A cache with a capacity forgets
the templates that were asked for longest ago.
-/

namespace MarkupTemplate

/-- A template in a cache. -/
structure Cached where
  /-- Which of the compilations for this cache made it. -/
  serial : Nat
  /-- The template. -/
  template : Template
  deriving DecidableEq

/-- How many templates a cache keeps; at least one, and all where nothing is said. -/
abbrev Capacity := Option { n : Nat // 0 < n }

/-- Templates by call site, the one asked for longest ago first. -/
structure TemplateCache where
  /-- How many templates are kept. -/
  capacity : Capacity := none
  /-- The templates. -/
  entries : List (Nat × Cached) := []
  /-- How many compilations there have been. -/
  compilations : Nat := 0

/-- Why a cache has no template for a call site. -/
structure SiteError where
  /-- The identity of the call site. -/
  site : Nat
  /-- Why it has no template. -/
  cause : CompileError
  deriving DecidableEq, Repr

/-- The wording of why a cache has no template for a call site. -/
def SiteError.message (e : SiteError) : String :=
  s!"failed to compile call site {e.site}: {e.cause.message}"

namespace TemplateCache

/-- The last entries, as many as the capacity allows. -/
def limit (capacity : Capacity) (entries : List (Nat × Cached)) : List (Nat × Cached) :=
  match capacity with
  | none => entries
  | some n => entries.drop (entries.length - n.1)

/-- The template of a call site, without asking for it. -/
def peek? (c : TemplateCache) (site : CallSite) : Option Cached :=
  Entries.lookup? c.entries site.id

/-- Whether the template of a call site is there. -/
def contains (c : TemplateCache) (site : CallSite) : Bool :=
  (c.peek? site).isSome

/-- How many templates there are. -/
def size (c : TemplateCache) : Nat :=
  c.entries.length

/-- The cache after its template for a site has been asked for. -/
def touch (c : TemplateCache) (site : CallSite) (t : Cached) : TemplateCache :=
  { c with entries := limit c.capacity (Entries.insert c.entries site.id t) }

/-- The template of a call site: the one that is there, or a new one, which is then kept. A site
without a template leaves the cache as it is. -/
def getOrCompile (c : TemplateCache) (site : CallSite) :
    TemplateCache × Except SiteError Cached :=
  match c.peek? site with
  | some t => (c.touch site t, .ok t)
  | none =>
    match site.compile with
    | .error cause => (c, .error { site := site.id, cause })
    | .ok template =>
      let t : Cached := { serial := c.compilations, template }
      ({ c.touch site t with compilations := c.compilations + 1 }, .ok t)

end TemplateCache

end MarkupTemplate
