import CqrsSaga.App.Calls
import CqrsSaga.Codec.Regex

/-!
# The Kafka service

`KafkaService.publish` replaces the topic it is given by one that depends on the
content of the message, and picks the key that fixes the partition.  `KafkaService.subscribe`
translates what looks like a pattern into a regular expression, which the consumer
tests the names of the topics with.

## Main definitions

* `KafkaService.generateTopicForProduct`, `selectTopic` — the choice of the topic.
* `KafkaService.messageKey`, `publish` — the key, and sending a message.
* `KafkaService.Subscription`, `subscription` — what a consumer is subscribed to.
* `AppController.testKafka` — the test message.
-/

namespace CqrsSaga

namespace KafkaService

variable [Hashes]

/-- The topic of the first item of a message, or `base` if there are no items. -/
def generateTopicForProduct (base : String) : List OrderItem → String
  | [] => base
  | primaryProduct :: _ =>
    let productId := (truthy (some primaryProduct.productId) <|>
      truthy (some primaryProduct.productName)).getD "unknown"
    base ++ "-product-" ++ (Hashes.md5hex productId).take 8

/-- The topic a message given to `publish` with `eventType` is sent to. -/
def selectTopic (eventType : String) (data : Message) : String :=
  if includes eventType "Order" || includes eventType "order" then
    generateTopicForProduct "order-events" data.items
  else if includes eventType "Payment" || includes eventType "payment" then
    generateTopicForProduct "payment-events" data.items
  else if includes eventType "Saga" || includes eventType "saga" then
    match truthy data.correlationId with
    | some correlationId => "saga-events-" ++ (Hashes.md5hex correlationId).take 8
    | none => "saga-events"
  else if includes eventType.toLower "saga" then "saga-events"
  else "order-events"

/-- The key of a record; `none` stands for the current time. -/
def messageKey (message : Message) : Option String :=
  truthy message.correlationId <|> truthy message.sagaId <|> truthy message.orderId

/-- Send a message. -/
def publish (topic : String) (message : Message) : Async App Unit :=
  producer.send (selectTopic topic message) (messageKey message) message

/-! ### Subscribing -/

/-- `s.replace('*', '.*')`: the first star only. -/
def replaceStar : List Char → List Char
  | [] => []
  | c :: cs => if c = '*' then '.' :: '*' :: cs else c :: replaceStar cs

/-- What `consumer.subscribe` is given. -/
inductive Subscription
  /-- A regular expression, as its source. -/
  | pattern (source : String)
  /-- The name of a topic. -/
  | topic (name : String)
  deriving DecidableEq, Repr

/-- What `subscribe` subscribes its consumer to. -/
def subscription (topicPattern : String) : Subscription :=
  if includes topicPattern "*" || includes topicPattern "." then
    .pattern (String.ofList (replaceStar topicPattern.toList))
  else .topic topicPattern

/-- The consumer gets the messages of a topic.  Of an expression with other than single characters,
dots and stars nothing is said. -/
def Subscription.matches : Subscription → String → Bool
  | .pattern source, name => (Regex.parse source.toList).any fun regExp => regExp.test name
  | .topic exact, name => decide (name = exact)

end KafkaService

/-- What `GET /kafka-test` answers. -/
structure KafkaTestResult where
  status : String
  message : String
  error : Option String
  deriving DecidableEq, Repr

/-- `GET /kafka-test`. -/
def AppController.testKafka [Hashes] : Async App KafkaTestResult :=
  Async.handle
    (do
      KafkaService.publish "test-topic" (.test "Hello Kafka!")
      return ⟨"success", "Kafka test message sent", none⟩)
    fun error => return ⟨"error", "Failed to send Kafka message", some error.message⟩

end CqrsSaga
