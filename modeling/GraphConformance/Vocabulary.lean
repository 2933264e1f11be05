import GraphConformance.Iri

/-!
# Vocabulary

The IRIs with a fixed meaning: RDF, RDFS, XML Schema and OWL, and the vocabulary of protocol
documents, whose resources point at graphs and whose graphs point at subjects. The names that
documents may use without declaring them are `builtinNames`.

A reserved IRI (`isReserved`) describes the structure of a document rather than its content.
-/

set_option autoImplicit false

namespace GraphConformance.Vocabulary

namespace Rdf

/-- The namespace of RDF. -/
def space : String := "http://www.w3.org/1999/02/22-rdf-syntax-ns#"

def type : Iri := ⟨"http://www.w3.org/1999/02/22-rdf-syntax-ns#type"⟩
def first : Iri := ⟨"http://www.w3.org/1999/02/22-rdf-syntax-ns#first"⟩
def rest : Iri := ⟨"http://www.w3.org/1999/02/22-rdf-syntax-ns#rest"⟩
def nil : Iri := ⟨"http://www.w3.org/1999/02/22-rdf-syntax-ns#nil"⟩
def langString : Iri := ⟨"http://www.w3.org/1999/02/22-rdf-syntax-ns#langString"⟩

end Rdf

namespace Rdfs

/-- The namespace of RDF Schema. -/
def space : String := "http://www.w3.org/2000/01/rdf-schema#"

def subClassOf : Iri := ⟨"http://www.w3.org/2000/01/rdf-schema#subClassOf"⟩
def subPropertyOf : Iri := ⟨"http://www.w3.org/2000/01/rdf-schema#subPropertyOf"⟩
def domain : Iri := ⟨"http://www.w3.org/2000/01/rdf-schema#domain"⟩
def range : Iri := ⟨"http://www.w3.org/2000/01/rdf-schema#range"⟩
def literal : Iri := ⟨"http://www.w3.org/2000/01/rdf-schema#Literal"⟩

end Rdfs

namespace Xsd

/-- The namespace of XML Schema datatypes. -/
def space : String := "http://www.w3.org/2001/XMLSchema#"

def string : Iri := ⟨"http://www.w3.org/2001/XMLSchema#string"⟩
def boolean : Iri := ⟨"http://www.w3.org/2001/XMLSchema#boolean"⟩
def integer : Iri := ⟨"http://www.w3.org/2001/XMLSchema#integer"⟩
def decimal : Iri := ⟨"http://www.w3.org/2001/XMLSchema#decimal"⟩
def double : Iri := ⟨"http://www.w3.org/2001/XMLSchema#double"⟩

end Xsd

namespace Owl

/-- The namespace of OWL. -/
def space : String := "http://www.w3.org/2002/07/owl#"

def thing : Iri := ⟨"http://www.w3.org/2002/07/owl#Thing"⟩
def nothing : Iri := ⟨"http://www.w3.org/2002/07/owl#Nothing"⟩
def namedIndividual : Iri := ⟨"http://www.w3.org/2002/07/owl#NamedIndividual"⟩
def equivalentClass : Iri := ⟨"http://www.w3.org/2002/07/owl#equivalentClass"⟩
def equivalentProperty : Iri := ⟨"http://www.w3.org/2002/07/owl#equivalentProperty"⟩
def disjointWith : Iri := ⟨"http://www.w3.org/2002/07/owl#disjointWith"⟩
def intersectionOf : Iri := ⟨"http://www.w3.org/2002/07/owl#intersectionOf"⟩
def unionOf : Iri := ⟨"http://www.w3.org/2002/07/owl#unionOf"⟩
def complementOf : Iri := ⟨"http://www.w3.org/2002/07/owl#complementOf"⟩
def oneOf : Iri := ⟨"http://www.w3.org/2002/07/owl#oneOf"⟩
def onProperty : Iri := ⟨"http://www.w3.org/2002/07/owl#onProperty"⟩
def someValuesFrom : Iri := ⟨"http://www.w3.org/2002/07/owl#someValuesFrom"⟩
def allValuesFrom : Iri := ⟨"http://www.w3.org/2002/07/owl#allValuesFrom"⟩
def hasValue : Iri := ⟨"http://www.w3.org/2002/07/owl#hasValue"⟩
def hasSelf : Iri := ⟨"http://www.w3.org/2002/07/owl#hasSelf"⟩
def minCardinality : Iri := ⟨"http://www.w3.org/2002/07/owl#minCardinality"⟩
def maxCardinality : Iri := ⟨"http://www.w3.org/2002/07/owl#maxCardinality"⟩
def cardinality : Iri := ⟨"http://www.w3.org/2002/07/owl#cardinality"⟩
def minQualifiedCardinality : Iri := ⟨"http://www.w3.org/2002/07/owl#minQualifiedCardinality"⟩
def maxQualifiedCardinality : Iri := ⟨"http://www.w3.org/2002/07/owl#maxQualifiedCardinality"⟩
def qualifiedCardinality : Iri := ⟨"http://www.w3.org/2002/07/owl#qualifiedCardinality"⟩

end Owl

namespace Protocol

/-- The namespace of protocol documents. -/
def space : String := "https://w3id.org/rdg#"

def resource : Iri := ⟨"https://w3id.org/rdg#Resource"⟩
def hasGraph : Iri := ⟨"https://w3id.org/rdg#hasGraph"⟩
def hasSubject : Iri := ⟨"https://w3id.org/rdg#hasSubject"⟩

end Protocol

/-- The namespace names that every document knows. -/
def builtinNames : List (String × String) :=
  [("rdf", Rdf.space), ("rdfs", Rdfs.space), ("xsd", Xsd.space), ("owl", Owl.space),
    ("rdg", Protocol.space)]

/-- IRIs that describe the structure of a document: they take no part in profiles and defaults. -/
def isReserved (i : Iri) : Bool :=
  i.isIn Protocol.space || i = Rdf.type || i = Owl.namedIndividual

end GraphConformance.Vocabulary
