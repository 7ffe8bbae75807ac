/-!
# Predicates and classes

The identifiers that the library itself gives a meaning to. All others are data.
-/

namespace FactGraph.Vocabulary

def label : String := "label"
def description : String := "description"
def instanceOf : String := "P31"
def shortName : String := "P1813"
def url : String := "P2699"

/-- The declared data type of a qualifier property. -/
def declaredDatatype : String := "wikidata_data_type"

/-- Links an observation, by its id, to the node of its dataset. -/
def dataset : String := "P2006020004"

/-- Links a variable to each of its qualifier properties. -/
def hasQualifier : String := "P2006020002"

/-- Links a variable to the property of its observations. -/
def correspondsTo : String := "P1687"

def datasetClass : String := "Q1172284"
def variableClass : String := "Q50701"

def pointInTime : String := "P585"
def statedIn : String := "P248"
def locatedIn : String := "P131"
def location : String := "P276"
def country : String := "P17"

def admin1 : String := "P2006190001"
def admin2 : String := "P2006190002"
def admin3 : String := "P2006190003"

end FactGraph.Vocabulary
