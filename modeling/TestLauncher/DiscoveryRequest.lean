import TestLauncher.Filter.Engine
import TestLauncher.Filter.Node
import TestLauncher.Parameters
import TestLauncher.Selector
import TestLauncher.Steps

/-! # Discovery requests

    A request holds selectors, filters on engines, filters on nodes, and parameters.  It
    is put together step by step; each step takes a list and adds its items one after the
    other, so what came before a refused item stays. -/

namespace TestLauncher

/-- What to discover. -/
structure DiscoveryRequest where
  selectors : List Selector := []
  engineFilters : List EngineFilter := []
  nodeFilters : List NodeFilter := []
  parameters : Parameters := ∅

namespace DiscoveryRequest

/-- The selectors of one kind, in order. -/
def selectorsOf (request : DiscoveryRequest) (kind : Selector.Kind) : List Selector :=
  request.selectors.filter fun s => s.kind = kind

/-- Whether two requests compare as equal. -/
def same (a b : DiscoveryRequest) : Bool :=
  decide (a.selectors = b.selectors)
    && Filter.sameAll EngineRule.same a.engineFilters b.engineFilters
    && Filter.sameAll NodeRule.same a.nodeFilters b.nodeFilters
    && a.parameters.same b.parameters

end DiscoveryRequest

/-- A request under construction. -/
structure RequestBuilder where
  selectors : List Selector := []
  engineFilters : List EngineFilter := []
  nodeFilters : List NodeFilter := []
  parameters : OrderedMap String String := ∅
  defaults : OrderedMap String String := ∅

/-- Steps of building a request. -/
abbrev Building := Steps RequestBuilder

namespace RequestBuilder

/-- Adds the items before the first absent one, and refuses that. -/
def addAll {α : Type} (message : String) (add : α → RequestBuilder → RequestBuilder)
    (items : List (Option α)) : Building Unit :=
  items.forM fun
    | none => throw (.refused (.stated message))
    | some a => modify (add a)

/-- Adds selectors. -/
def select : List (Option Selector) → Building Unit :=
  addAll "selectors must not contain None" fun s b => { b with selectors := b.selectors ++ [s] }

/-- Adds filters on engines. -/
def filterEngines : List (Option EngineFilter) → Building Unit :=
  addAll "engine filters must not contain None" fun f b =>
    { b with engineFilters := b.engineFilters ++ [f] }

/-- Adds filters on nodes. -/
def filterNodes : List (Option NodeFilter) → Building Unit :=
  addAll "post-discovery filters must not contain None" fun f b =>
    { b with nodeFilters := b.nodeFilters ++ [f] }

/-- Sets a parameter. -/
def setParameter (key value : String) : Building Unit :=
  if Text.isBlank key then throw (.refused .blankParameterKey)
  else modify fun b => { b with parameters := b.parameters.insert key value }

/-- Sets parameters one after the other. -/
def setParameters (values : OrderedMap String String) : Building Unit :=
  values.toList.forM fun e => setParameter e.1 e.2

/-- The request as it stands. -/
def build (b : RequestBuilder) : DiscoveryRequest where
  selectors := b.selectors
  engineFilters := b.engineFilters
  nodeFilters := b.nodeFilters
  parameters := { explicit := b.parameters, defaults := b.defaults }

end RequestBuilder

/-- The request for lists of selectors and filters, without parameters. -/
def DiscoveryRequest.ofLists (selectors : List (Option Selector))
    (engineFilters : List (Option EngineFilter)) (nodeFilters : List (Option NodeFilter)) :
    Except Fault DiscoveryRequest :=
  let steps : Building Unit := do
    RequestBuilder.select selectors
    RequestBuilder.filterEngines engineFilters
    RequestBuilder.filterNodes nodeFilters
  match steps.on {} with
  | (.error e, _) => .error e
  | (.ok (), b) => .ok b.build

end TestLauncher
