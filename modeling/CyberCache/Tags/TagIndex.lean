import CyberCache.Tags.TagTable

/-!
# The tag index

Each page has an array of references to its tags, and the references to one tag are linked with each
other. The first references are part of the page object, the others are in an array of their own. A
reference is known by its page and its position, as only one of the two arrays has it.

The tag manager processes one message after the other. Pages are created, flagged and disposed by
others. Messages that it posts are left out here; they are part of the payload store.
-/

namespace CyberCache

open Function (update)

abbrev TagRef := Nat × Nat

structure TagChains where
  table : TagTable
  /-- The first reference to a tag, and the number of references, in 32 bits. -/
  first : Nat → Option TagRef
  num : Nat → Nat
  tagOf : TagRef → Nat
  links : Links TagRef

structure TagIndex extends TagChains where
  /-- The pages in the order in which `lock_enumerate_all()` meets them. -/
  pages : List Nat
  numPages : Nat
  names : Nat → List UInt8
  beingDeleted : Nat → Bool
  linkedByTM : Nat → Bool
  /-- The number of references of a page, in 16 bits. -/
  count : Nat → Nat
  /-- The size of the array that is not part of the page object. -/
  xtags : Nat → Option Nat
  /-- The tag names that a page was last linked with; not part of the program. -/
  saved : Nat → List (List UInt8)

def ushortRange : Nat := 2 ^ 16

/-- `NAME_OF_TAG_FOR_UNTAGGED_PAGES`, that is, `<<< UNTAGGED >>>`. -/
def nameOfTagForUntaggedPages : List UInt8 :=
  [60, 60, 60, 32, 85, 78, 84, 65, 71, 71, 69, 68, 32, 62, 62, 62]

/-- The name is stored with the length `sizeof(NAME_OF_TAG_FOR_UNTAGGED_PAGES) - 1`, but the
constant is a pointer. -/
def untaggedName : List UInt8 := nameOfTagForUntaggedPages.take (8 - 1)

/-- `ts_untagged`, the tag that is created first. -/
def untagged : Nat := 0

/-! ## References

What is done to a tag that has been disposed has no result. -/

namespace TagChains

/-- `TagRef::link()`. -/
def link (c : TagChains) (r : TagRef) (t : Nat) : Option TagChains :=
  if c.table.Contains t then
    some { c with
      tagOf := update c.tagOf r t
      links := c.links.pushFront (c.first t) r
      first := update c.first t (some r)
      num := update c.num t (uintAdd (c.num t) 1) }
  else none

/-- `TagRef::unlink()`; the first component is the tag if it has become empty. -/
def unlink (c : TagChains) (r : TagRef) : Option (Option Nat × TagChains) :=
  let t := c.tagOf r
  if c.table.Contains t then
    let (links, first) := c.links.unlink (c.first t) r
    some (if uintSub (c.num t) 1 = 0 ∧ t ≠ untagged then some t else none,
      { c with
        links := links
        first := update c.first t first
        num := update c.num t (uintSub (c.num t) 1) })
  else none

variable (config : TagConfiguration)

def disposeTag (c : TagChains) (t : Nat) : Option TagChains :=
  if c.table.Contains t then some { c with table := c.table.dispose config t } else none

def unlinkTag (c : TagChains) (r : TagRef) : Option TagChains := do
  let (empty, c) ← c.unlink r
  match empty with
  | some t => c.disposeTag config t
  | none => return c

/-- A reference is unlinked; tags that become empty are remembered. -/
def unlinkExisting (p : List Nat × TagChains) (r : TagRef) : Option (List Nat × TagChains) := do
  let (empty, c) ← p.2.unlink r
  return (p.1 ++ empty.toList, c)

def findCreateTag (c : TagChains) (name : List UInt8) : Option (Nat × TagChains) := do
  match ← c.table.find config name with
  | some t => return (t, c)
  | none =>
    let table ← c.table.create config name
    return (c.table.numTags, { c with
      table := table
      first := update c.first c.table.numTags none
      num := update c.num c.table.numTags 0 })

def linkTag (c : TagChains) (p : List UInt8 × TagRef) : Option TagChains := do
  let (t, c) ← c.findCreateTag config p.1
  c.link p.2 t

def disposeIfEmpty (c : TagChains) (t : Nat) : Option TagChains :=
  if c.num t = 0 then c.disposeTag config t else some c

def addReference (c : TagChains) (t : Nat) : Option TagChains :=
  if c.table.Contains t then some { c with num := update c.num t (uintAdd (c.num t) 1) } else none

def addDummyReferences (c : TagChains) (tags : List Nat) : Option TagChains :=
  tags.foldlM addReference c

/-- A reference that is in no chain is removed; whether the tag is the one for untagged pages does
not matter here. -/
def removeReference (c : TagChains) (t : Nat) : Option TagChains :=
  if c.table.Contains t then
    disposeIfEmpty config { c with num := update c.num t (uintSub (c.num t) 1) } t
  else none

def removeDummyReferences (c : TagChains) (tags : List Nat) : Option TagChains :=
  tags.foldlM (removeReference config) c

end TagChains

def uniqueNames (names : List (List UInt8)) : List (List UInt8) :=
  names.foldl (fun unique name => if name ∈ unique then unique else unique ++ [name]) []

namespace TagIndex

variable (config : TagConfiguration)

/-- The index that `allocate_tag_store()` makes. -/
def create : TagIndex where
  table := ((TagTable.empty config).create config untaggedName).getD (TagTable.empty config)
  first := fun _ => none
  num := fun _ => 0
  tagOf := fun _ => 0
  links := ⟨fun _ => none, fun _ => none⟩
  pages := []
  numPages := 0
  names := fun _ => []
  beingDeleted := fun _ => false
  linkedByTM := fun _ => false
  count := fun _ => 0
  xtags := fun _ => none
  saved := fun _ => []

/-! ## Arrays of references -/

/-- `get_tag_ref()`; `none` if there is no such reference. -/
def getTagRef (s : TagIndex) (page i : Nat) : Option TagRef :=
  if i < config.numInternalTagRefs then some (page, i)
  else
    match s.xtags page with
    | none => none
    | some n => if i - config.numInternalTagRefs < n then some (page, i) else none

def tagRefs (s : TagIndex) (page num : Nat) : Option (List TagRef) :=
  (List.range num).mapM (s.getTagRef config page)

def setNumTagRefs (s : TagIndex) (page ntags : Nat) : TagIndex :=
  if ntags ≠ s.count page then
    { s with
      xtags := update s.xtags page
        (if config.numInternalTagRefs < ntags then some (ntags - config.numInternalTagRefs)
        else none)
      count := update s.count page (ntags % ushortRange) }
  else s

/-! ## Saving pages -/

/-- Unlink existing tags; those that become empty are not disposed yet. -/
def unlinkExistingTags (s : TagIndex) (page : Nat) : Option (List Nat × TagChains) :=
  if s.linkedByTM page then do
    let refs ← s.tagRefs config page (max 1 (s.count page))
    refs.foldlM TagChains.unlinkExisting ([], s.toTagChains)
  else some ([], s.toTagChains)

/-- Link new tags; a page without tags is linked to `ts_untagged`. -/
def linkTags (s : TagIndex) (page : Nat) (names : List (List UInt8)) : Option TagIndex :=
  match names with
  | [] => do
    let s := s.setNumTagRefs config page 1
    let r ← s.getTagRef config page 0
    let chains ← s.link r untagged
    return { s with toTagChains := chains }
  | _ => do
    let s := s.setNumTagRefs config page (uniqueNames names).length
    let refs ← s.tagRefs config page (uniqueNames names).length
    let chains ← ((uniqueNames names).zip refs).foldlM (TagChains.linkTag config) s.toTagChains
    return { s with toTagChains := chains }

def processSaveCommand (s : TagIndex) (page : Nat) (names : List (List UInt8)) :
    Option TagIndex :=
  -- a concurrent request managed to delete the page before it was linked
  if s.linkedByTM page = false ∧ s.beingDeleted page then some s
  else do
    let (empties, chains) ← s.unlinkExistingTags config page
    let s ← { s with toTagChains := chains }.linkTags config page names
    let chains ← empties.foldlM (TagChains.disposeIfEmpty config) s.toTagChains
    return { s with
      toTagChains := chains
      linkedByTM := update s.linkedByTM page true
      saved := update s.saved page names }

/-! ## Removing pages -/

def unlinkObjectTags (s : TagIndex) (page : Nat) : Option TagIndex := do
  let refs ← s.tagRefs config page (max 1 (s.count page))
  let chains ← refs.foldlM (TagChains.unlinkTag config) s.toTagChains
  return { s with
    toTagChains := chains
    linkedByTM := update s.linkedByTM page false }

def unlinkIfLinked (s : TagIndex) (page : Nat) : Option TagIndex :=
  if s.linkedByTM page then s.unlinkObjectTags config page else some s

def processRemoveCommand (s : TagIndex) (page : Nat) : Option TagIndex :=
    s.unlinkIfLinked config page

def unlinkObject (s : TagIndex) (page : Nat) : Option TagIndex := s.unlinkIfLinked config page

/-! ## Pages with given tags -/

/-- The loop that counts matches; each element says whether two tags are the same. -/
def matchLoop (minMatches : Nat) : Nat → List Bool → Bool
  | _, [] => false
  | num, true :: rest =>
    if num + 1 = minMatches then true else matchLoop minMatches (num + 1) rest
  | num, false :: rest => matchLoop minMatches num rest

def matchesTags (s : TagIndex) (page minMatches : Nat) (tags : List Nat) : Bool :=
  let internal := List.range (max 1 (min (s.count page) config.numInternalTagRefs))
  let external :=
    match s.xtags page with
    | none => []
    | some _ =>
      (List.range (max 1 (s.count page - config.numInternalTagRefs))).map
        (config.numInternalTagRefs + ·)
  matchLoop minMatches 0 ((internal ++ external).flatMap fun i =>
    tags.map fun t => decide (t = s.tagOf (page, i)))

structure ExtractedTags where
  tags : List Nat
  shortest : Option Nat
  allTagsFound : Bool

def extractTagName (s : TagIndex) (e : ExtractedTags) (name : List UInt8) :
    Option ExtractedTags := do
  match ← s.table.find config name with
  | none => return { e with allTagsFound := false }
  | some t =>
    if t ∈ e.tags then return e
    else
      match e.shortest with
      | none => return { e with shortest := some t }
      | some shortest =>
        if s.num t < s.num shortest then
          return { e with tags := e.tags ++ [shortest], shortest := some t }
        else return { e with tags := e.tags ++ [t] }

def extractTagNames (s : TagIndex) (names : List (List UInt8)) : Option ExtractedTags :=
  names.foldlM (s.extractTagName config) ⟨[], none, true⟩

inductive TagSelectCondition where
  | always
  | doesMatch
  | doesNotMatch
deriving DecidableEq, Repr

def selects (s : TagIndex) (tags : List Nat) (condition : TagSelectCondition) (page : Nat) : Bool :=
  match condition with
  | .always => true
  | .doesMatch => s.matchesTags config page 1 tags
  | .doesNotMatch => !s.matchesTags config page 1 tags

/-- A page in the chain of one tag that has all other tags. -/
def hasAll (s : TagIndex) (tags : List Nat) (page : Nat) : Bool :=
  decide (tags = []) || s.matchesTags config page tags.length tags

/-! ## Queries -/

/-- `enum_objects()`. -/
def enumObjects (s : TagIndex) (tags : List Nat) (condition : TagSelectCondition) :
    List (List UInt8) :=
  (s.pages.filter fun page => !s.beingDeleted page && s.linkedByTM page &&
    s.selects config tags condition page).map s.names

/-- The walk over the chain of a tag; `none` if it does not end. -/
def enumChain (s : TagIndex) (tags : List Nat) : Nat → Option TagRef → Option (List (List UInt8))
  | _, none => some []
  | 0, some _ => none
  | fuel + 1, some r => do
    let rest ← enumChain s tags fuel (s.links.next r)
    if !s.beingDeleted r.1 && s.hasAll config tags r.1 then return s.names r.1 :: rest
    else return rest

inductive TagQuery where
  | idsMatchingTags
  | idsNotMatchingTags
  | idsMatchingAnyTags
deriving DecidableEq, Repr

def processGetmatchingidsCommand (s : TagIndex) (query : TagQuery) (names : List (List UInt8)) :
    Option (List (List UInt8)) := do
  let e ← s.extractTagNames config names
  match query, e.shortest with
  | .idsMatchingTags, some shortest =>
    if e.allTagsFound then s.enumChain config e.tags s.pages.length (s.first shortest)
    else return []
  | .idsNotMatchingTags, none => return s.enumObjects config [] .always
  | .idsNotMatchingTags, some shortest =>
    return s.enumObjects config (e.tags ++ [shortest]) .doesNotMatch
  | .idsMatchingAnyTags, some shortest =>
    return s.enumObjects config (e.tags ++ [shortest]) .doesMatch
  | .idsMatchingTags, none | .idsMatchingAnyTags, none => return []

/-- The tag names in the response about a page; the inner `none` is the response that there is no
such page. -/
def processGetmetadatasCommand (s : TagIndex) (page : Nat) : Option (Option (List (List UInt8))) :=
  if !s.beingDeleted page && s.linkedByTM page then do
    let refs ← s.tagRefs config page (s.count page)
    let tags := refs.map s.tagOf
    if ∀ t ∈ tags, s.table.Contains t then
      return some ((tags.filter (· ≠ untagged)).map s.table.name)
    else none
  else some none

/-! ## Cleaning -/

def deletePage (s : TagIndex) (page : Nat) : Option TagIndex := do
  let s ← s.unlinkObjectTags config page
  return { s with beingDeleted := update s.beingDeleted page true }

def objectUnlinkCallback (tags : List Nat) (condition : TagSelectCondition) (s : TagIndex)
    (page : Nat) : Option TagIndex :=
  if !s.beingDeleted page && s.linkedByTM page && s.selects config tags condition page then
    s.deletePage config page
  else some s

def unlinkObjects (s : TagIndex) (tags : List Nat) (condition : TagSelectCondition) :
    Option TagIndex :=
  s.pages.foldlM (objectUnlinkCallback config tags condition) s

/-- The walk over the chain of a tag in which pages that have all other tags are deleted; `none` if
it does not end. -/
def cleanChain (tags : List Nat) : Nat → TagIndex → Option TagRef → Option TagIndex
  | _, s, none => some s
  | 0, _, some _ => none
  | fuel + 1, s, some r =>
    if !s.beingDeleted r.1 && s.hasAll config tags r.1 then do
      let s' ← s.deletePage config r.1
      cleanChain tags fuel s' (s.links.next r)
    else cleanChain tags fuel s (s.links.next r)

inductive CleanMode where
  | all
  | old
  | matchingAllTags
  | notMatchingAnyTag
  | matchingAnyTag
deriving DecidableEq, Repr

/-- Tags that are walked over are kept by dummy references until `body` is done. -/
def withDummyReferences (s : TagIndex) (added removed : List Nat)
    (body : TagIndex → Option TagIndex) : Option TagIndex := do
  let chains ← s.addDummyReferences added
  let s ← body { s with toTagChains := chains }
  let chains ← s.removeDummyReferences config removed
  return { s with toTagChains := chains }

/-- Garbage collection is left to the optimizer. -/
def processCleanCommand (s : TagIndex) (mode : CleanMode) (names : List (List UInt8)) :
    Option TagIndex :=
  match mode with
  | .all => s.unlinkObjects config [] .always
  | .old => some s
  | .matchingAllTags => do
    let e ← s.extractTagNames config names
    match e.shortest with
    | none => return s
    | some shortest =>
      if e.allTagsFound then
        s.withDummyReferences config (shortest :: e.tags) (e.tags ++ [shortest]) fun s =>
          cleanChain config e.tags s.pages.length s (s.first shortest)
      else return s
  | .notMatchingAnyTag => do
    let e ← s.extractTagNames config names
    match e.shortest with
    | none => s.unlinkObjects config [] .always
    | some shortest =>
      let tags := e.tags ++ [shortest]
      s.withDummyReferences config tags tags fun s => s.unlinkObjects config tags .doesNotMatch
  | .matchingAnyTag => do
    let e ← s.extractTagNames config names
    match e.shortest with
    | none => return s
    | some shortest =>
      let tags := e.tags ++ [shortest]
      s.withDummyReferences config tags tags fun s => s.unlinkObjects config tags .doesMatch

/-! ## Steps -/

inductive TagAction where
  /-- A connection thread adds a page to the store. -/
  | createPage (name : List UInt8)
  /-- A connection thread or the optimizer marks a page. -/
  | flagPage (page : Nat)
  /-- A page is removed from the store. -/
  | disposePage (page : Nat)
  /-- The tables of the store are changed so that pages are met in another order. -/
  | arrangePages (pages : List Nat)
  | save (page : Nat) (names : List (List UInt8))
  | remove (page : Nat)
  | unlink (page : Nat)
  | clean (mode : CleanMode) (names : List (List UInt8))

/-- Messages are about pages that exist; pages are disposed when they are marked and not linked. -/
def step (s : TagIndex) : TagAction → Option TagIndex
  | .createPage name =>
    some { s with
      pages := s.numPages :: s.pages
      numPages := s.numPages + 1
      names := update s.names s.numPages name
      beingDeleted := update s.beingDeleted s.numPages false
      linkedByTM := update s.linkedByTM s.numPages false
      count := update s.count s.numPages 0
      xtags := update s.xtags s.numPages none }
  | .flagPage page =>
    if page ∈ s.pages then
      some { s with beingDeleted := update s.beingDeleted page true }
    else none
  | .disposePage page =>
    if page ∈ s.pages ∧ s.beingDeleted page ∧ s.linkedByTM page = false then
      some { s with pages := s.pages.erase page }
    else none
  | .arrangePages pages => if pages.Perm s.pages then some { s with pages := pages } else none
  | .save page names => if page ∈ s.pages then s.processSaveCommand config page names else none
  | .remove page => if page ∈ s.pages then s.processRemoveCommand config page else none
  | .unlink page => if page ∈ s.pages then s.unlinkObject config page else none
  | .clean mode names => s.processCleanCommand config mode names

end TagIndex

end CyberCache
