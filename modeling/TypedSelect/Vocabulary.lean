/-
The closed vocabularies of a query: its tables and columns, and the
operators, functions and keywords that combine them.

Every vocabulary lists its symbols in a fixed order, and each symbol has
one name, the one it is written with in JSON. Where SQL spells a symbol
differently, the SQL spelling stands beside the name.
-/

namespace TypedSelect

/-- A finite list of named symbols. -/
class Vocabulary (α : Type) where
  /-- Every symbol once, in order. -/
  all : List α
  /-- The name of a symbol. -/
  name : α → String

-- ================================================= tables and columns

/-- The tables a query may read. -/
inductive Table where
  | productOffers
  | productMatches
  | priceHistory
deriving DecidableEq, Repr

/-- The name of a table, in JSON and in SQL. -/
def Table.name : Table → String
  | productOffers => "product_offers"
  | productMatches => "product_matches"
  | priceHistory => "price_history"

instance : Vocabulary Table where
  all := [.productOffers, .productMatches, .priceHistory]
  name := Table.name

/-- The columns of all tables together. -/
inductive Column where
  | id
  | offerId
  | productId
  | myOfferId
  | compOfferId
  | matchScore
  | title
  | brand
  | category
  | subcategory
  | seller
  | source
  | currency
  | regularPrice
  | markdownPrice
  | price
  | inStock
  | rating
  | reviewCount
  | url
  | scrapedAt
  | observedAt
deriving DecidableEq, Repr

/-- The name of a column, in JSON and in SQL. -/
def Column.name : Column → String
  | id => "id"
  | offerId => "offer_id"
  | productId => "product_id"
  | myOfferId => "my_offer_id"
  | compOfferId => "comp_offer_id"
  | matchScore => "match_score"
  | title => "title"
  | brand => "brand"
  | category => "category"
  | subcategory => "subcategory"
  | seller => "seller"
  | source => "source"
  | currency => "currency"
  | regularPrice => "regular_price"
  | markdownPrice => "markdown_price"
  | price => "price"
  | inStock => "in_stock"
  | rating => "rating"
  | reviewCount => "review_count"
  | url => "url"
  | scrapedAt => "scraped_at"
  | observedAt => "observed_at"

instance : Vocabulary Column where
  all := [.id, .offerId, .productId, .myOfferId, .compOfferId, .matchScore,
    .title, .brand, .category, .subcategory, .seller, .source, .currency,
    .regularPrice, .markdownPrice, .price, .inStock, .rating, .reviewCount,
    .url, .scrapedAt, .observedAt]
  name := Column.name

-- ========================================================== operators

/-- The operators between two numbers. -/
inductive ArithmeticOp where
  | add
  | sub
  | mul
  | div
deriving DecidableEq, Repr

/-- The sign of an operator, in JSON and in SQL. -/
def ArithmeticOp.name : ArithmeticOp → String
  | add => "+"
  | sub => "-"
  | mul => "*"
  | div => "/"

instance : Vocabulary ArithmeticOp where
  all := [.add, .sub, .mul, .div]
  name := ArithmeticOp.name

/-- The operators that make a predicate. -/
inductive ComparisonOp where
  | eq
  | ne
  | gt
  | lt
  | ge
  | le
  | like
  | ilike
  | isIn
  | notIn
  | isNull
  | isNotNull
deriving DecidableEq, Repr

namespace ComparisonOp

/-- The spelling of an operator, in JSON and in SQL. -/
def name : ComparisonOp → String
  | eq => "="
  | ne => "!="
  | gt => ">"
  | lt => "<"
  | ge => ">="
  | le => "<="
  | like => "LIKE"
  | ilike => "ILIKE"
  | isIn => "IN"
  | notIn => "NOT IN"
  | isNull => "IS NULL"
  | isNotNull => "IS NOT NULL"

/-- The right side is a list. -/
def takesList : ComparisonOp → Bool
  | isIn | notIn => true
  | _ => false

/-- There is no right side. -/
def takesNothing : ComparisonOp → Bool
  | isNull | isNotNull => true
  | _ => false

/-- The right side is a text pattern. -/
def takesPattern : ComparisonOp → Bool
  | like | ilike => true
  | _ => false

/-- Equality or order, which also holds between two columns or against
an aggregate. -/
def isOrdering : ComparisonOp → Bool
  | eq | ne | gt | lt | ge | le => true
  | _ => false

instance : Vocabulary ComparisonOp where
  all := [.eq, .ne, .gt, .lt, .ge, .le, .like, .ilike, .isIn, .notIn, .isNull,
    .isNotNull]
  name := ComparisonOp.name

end ComparisonOp

-- ========================================================== functions

/-- The functions over the rows of a group. -/
inductive AggregateFunction where
  | count
  | sum
  | avg
  | min
  | max
  | countDistinct
  | stddev
  | stddevPop
  | variance
  | varPop
  | percentileCont
  | percentileDisc
  | median
deriving DecidableEq, Repr

namespace AggregateFunction

/-- The name of a function in JSON and in messages. -/
def name : AggregateFunction → String
  | count => "COUNT"
  | sum => "SUM"
  | avg => "AVG"
  | min => "MIN"
  | max => "MAX"
  | countDistinct => "COUNT_DISTINCT"
  | stddev => "STDDEV"
  | stddevPop => "STDDEV_POP"
  | variance => "VARIANCE"
  | varPop => "VAR_POP"
  | percentileCont => "PERCENTILE_CONT"
  | percentileDisc => "PERCENTILE_DISC"
  | median => "MEDIAN"

/-- The function that SQL calls: a distinct count is a count, and a
median a percentile. -/
def sqlName : AggregateFunction → String
  | countDistinct => "COUNT"
  | median => "PERCENTILE_CONT"
  | f => f.name

/-- Taken over the sorted values of a group. -/
def isPercentile : AggregateFunction → Bool
  | percentileCont | percentileDisc | median => true
  | _ => false

/-- The caller says which fraction. -/
def requiresFraction : AggregateFunction → Bool
  | percentileCont | percentileDisc => true
  | _ => false

instance : Vocabulary AggregateFunction where
  all := [.count, .sum, .avg, .min, .max, .countDistinct, .stddev, .stddevPop,
    .variance, .varPop, .percentileCont, .percentileDisc, .median]
  name := AggregateFunction.name

end AggregateFunction

/-- The functions over a window of rows. -/
inductive WindowFunction where
  | rank
  | denseRank
  | rowNumber
  | lag
  | lead
  | sum
  | avg
  | min
  | max
  | count
deriving DecidableEq, Repr

namespace WindowFunction

/-- The name of a function, in JSON and in SQL. -/
def name : WindowFunction → String
  | rank => "RANK"
  | denseRank => "DENSE_RANK"
  | rowNumber => "ROW_NUMBER"
  | lag => "LAG"
  | lead => "LEAD"
  | sum => "SUM"
  | avg => "AVG"
  | min => "MIN"
  | max => "MAX"
  | count => "COUNT"

/-- Numbers the rows and takes no argument. -/
def isRanking : WindowFunction → Bool
  | rank | denseRank | rowNumber => true
  | _ => false

/-- Looks at another row and takes an offset and a default. -/
def isOffset : WindowFunction → Bool
  | lag | lead => true
  | _ => false

instance : Vocabulary WindowFunction where
  all := [.rank, .denseRank, .rowNumber, .lag, .lead, .sum, .avg, .min, .max,
    .count]
  name := WindowFunction.name

end WindowFunction

-- =========================================================== keywords

/-- The kinds of join. -/
inductive JoinType where
  | inner
  | left
deriving DecidableEq, Repr

/-- The keyword of a join, in JSON and in SQL. -/
def JoinType.name : JoinType → String
  | inner => "INNER"
  | left => "LEFT"

instance : Vocabulary JoinType where
  all := [.inner, .left]
  name := JoinType.name

/-- The connectives between predicates. -/
inductive Logic where
  | and
  | or
deriving DecidableEq, Repr

/-- The keyword of a connective, in JSON and in SQL. -/
def Logic.name : Logic → String
  | and => "AND"
  | or => "OR"

instance : Vocabulary Logic where
  all := [.and, .or]
  name := Logic.name

instance : Inhabited Logic := ⟨.and⟩

/-- The directions of a sort. -/
inductive Direction where
  | asc
  | desc
deriving DecidableEq, Repr

/-- The keyword of a direction, in JSON and in SQL. -/
def Direction.name : Direction → String
  | asc => "ASC"
  | desc => "DESC"

instance : Vocabulary Direction where
  all := [.asc, .desc]
  name := Direction.name

instance : Inhabited Direction := ⟨.desc⟩

/-- Where a sort puts the nulls. -/
inductive NullsOrder where
  | first
  | last
deriving DecidableEq, Repr

/-- The name of a place for the nulls in JSON; SQL writes `NULLS` in
front of it. -/
def NullsOrder.name : NullsOrder → String
  | first => "FIRST"
  | last => "LAST"

/-- The phrase in SQL. -/
def NullsOrder.sqlName (o : NullsOrder) : String := "NULLS " ++ o.name

instance : Vocabulary NullsOrder where
  all := [.first, .last]
  name := NullsOrder.name

end TypedSelect
